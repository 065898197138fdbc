import Drac.CategorySet
import Drac.Log.Code
import Drac.Token

/-!
# Syntax errors

Recognition stops at the first token that does not fit and says what would have fitted.

## Main definitions

* `Expected` — what would have fitted: one category or any of a set.
* `SyntaxError` — the two ways in which recognition stops.
* `SyntaxError.message`, `SyntaxError.code` — the wording and the code of an error.
-/

namespace Drac.Syntax

open Log (Code)

/-! ### What would have fitted -/

/-- What would have fitted. -/
inductive Expected
  /-- One category. -/
  | category (c : Category)
  /-- Any category of a set. -/
  | oneOf (s : CategorySet)
  deriving DecidableEq, Repr

namespace Expected

/-- Whether a category would have fitted. -/
def contains : Expected → Category → Bool
  | category d, c => d == c
  | oneOf s, c => s.contains c

/-- The categories that would have fitted, in declaration order. -/
def members : Expected → List Category
  | category c => [c]
  | oneOf s => s.members

/-- What would have fitted, in words. -/
def display : Expected → String
  | category c => c.name
  | oneOf s => "one of " ++ s.display

instance : ToString Expected := ⟨display⟩

end Expected

/-! ### Errors -/

/-- Why recognition stopped. -/
inductive SyntaxError
  /-- A token does not fit. -/
  | unexpectedToken (expected : Expected) (found : Token)
  /-- Blocks or expressions are nested past the limit. -/
  | maxNestingDepth (limit : Nat) (found : Token)
  deriving DecidableEq, Repr

namespace SyntaxError

/-- What would have fitted; nothing is said about that past the limit of nesting. -/
def expected? : SyntaxError → Option Expected
  | unexpectedToken e _ => some e
  | maxNestingDepth .. => none

/-- The token at which recognition stopped. -/
def found : SyntaxError → Token
  | unexpectedToken _ t => t
  | maxNestingDepth _ t => t

/-- Where recognition stopped. -/
def position (e : SyntaxError) : Position := e.found.position

/-- Whether the input ended too early. -/
def isEndOfInput : SyntaxError → Bool
  | unexpectedToken _ t => t.isEof
  | maxNestingDepth .. => false

/-- The code of an error. -/
def code (e : SyntaxError) : Code :=
  match e with
  | maxNestingDepth .. => .nestingDepth
  | unexpectedToken .. => if e.isEndOfInput then .unexpectedEnd else .unexpectedToken

/-- A token and its place, as the end of a message. -/
def describe (t : Token) : String :=
  t.category.name ++ ", \"" ++ t.text ++ "\" at " ++ t.position.display ++ "."

/-- An error in words. -/
def message : SyntaxError → String
  | unexpectedToken e t => "Expecting " ++ e.display ++ " but found " ++ describe t
  | maxNestingDepth n t =>
    "Maximum nesting depth of " ++ toString n ++ " exceeded by " ++ describe t

instance : ToString SyntaxError := ⟨message⟩

end SyntaxError

end Drac.Syntax
