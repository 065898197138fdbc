import Drac.Json.Reader
import Drac.Token

/-!
# Tokens and positions as records

## Main definitions

* `Token.toJson`, `Token.ofJson?` — a token as a record, and the way back.
* `Position.ofJson?` — the position that a record gives.
-/

namespace Drac

/-- A position as a record. -/
def Position.toJson (p : Position) : Json :=
  .object [("line", .ofNat p.line), ("column", .ofNat p.column)]

/-- The position that a record gives. -/
def Position.ofJson? (text : String) : Option Position := do
  let [some line, some column] ← Json.fields? ["line", "column"] text.toList | none
  return ⟨← Json.natOf? line, ← Json.natOf? column⟩

namespace Token

/-- A token as a record. -/
def toJson (t : Token) : Json :=
  .object
    [("lexeme", .ofText? t.lexeme), ("category", .string t.category.name),
      ("line", .ofNat t.position.line), ("column", .ofNat t.position.column)]

/-- The category that a value names. -/
def categoryOf? (value : List Char) : Option Category :=
  (Json.variantOf? value).bind Category.ofName?

/-- The token that a record gives; a token without text may leave the text out. -/
def ofJson? (text : String) : Option Token := do
  let [lexeme, some category, some line, some column] ←
    Json.fields? ["lexeme", "category", "line", "column"] text.toList | none
  let lexeme ← (lexeme.map Json.optionalTextOf?).getD (some none)
  return ⟨lexeme, ← categoryOf? category, ⟨← Json.natOf? line, ← Json.natOf? column⟩⟩

end Token

end Drac
