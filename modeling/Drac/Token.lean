import Drac.Category

/-!
# Tokens and their positions

## Main definitions

* `Position` — a line and a column, both counted from one.
* `Token` — a category, the text it was read from, and where that text starts.
* `Token.display` — the one-line form of a token, as a token dump prints it.
-/

namespace Drac

/-! ### Positions -/

/-- A place in a text: its line and its column in characters, both counted from one. -/
structure Position where
  /-- The line, the first one being 1. -/
  line : Nat
  /-- The column, the first one being 1. -/
  column : Nat
  deriving DecidableEq, Repr

namespace Position

/-- The place of the first character of a text. -/
def start : Position := ⟨1, 1⟩

instance : Inhabited Position := ⟨start⟩

/-- Earlier lines come first, and in one line earlier columns. -/
def order (p q : Position) : Ordering :=
  (compare p.line q.line).then (compare p.column q.column)

instance : Ord Position := ⟨order⟩

/-- A position in words. -/
def display (p : Position) : String :=
  "line " ++ toString p.line ++ ", column " ++ toString p.column

instance : ToString Position := ⟨display⟩

end Position

/-! ### Tokens -/

/-- A piece of a text that the grammar reads as one. -/
structure Token where
  /-- The text of the token; the end of the input has none. -/
  lexeme : Option String
  /-- What the token is. -/
  category : Category
  /-- Where the text starts. -/
  position : Position
  deriving DecidableEq, Repr, Inhabited

namespace Token

/-- The end of the input, seen at a position. -/
def eof (p : Position) : Token := ⟨none, .eof, p⟩

/-- Whether the token is the end of the input. -/
def isEof (t : Token) : Bool := t.category == .eof

@[simp] theorem isEof_eof (p : Position) : (eof p).isEof = true := rfl

@[simp] theorem category_eof (p : Position) : (eof p).category = .eof := rfl

theorem isEof_iff {t : Token} : t.isEof = true ↔ t.category = .eof := by simp [isEof]

/-- The text of the token, empty where there is none. -/
def text (t : Token) : String := t.lexeme.getD ""

/-- The place right after the text, counted on the line where the text starts. -/
def endPosition (t : Token) : Position := ⟨t.position.line, t.position.column + t.text.length⟩

/-- A token in one line: category, text and position between braces. -/
def display (t : Token) : String :=
  "\x7b" ++ t.category.name ++ ", \"" ++ t.text ++ "\", @(" ++ toString t.position.line ++ ", " ++
    toString t.position.column ++ ")\x7d"

instance : ToString Token := ⟨display⟩

end Token

end Drac
