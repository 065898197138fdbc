import Drac.CategorySet

/-!
# Sets of categories that the grammar asks for

Each set holds the categories that some phrase can start with, or the operators of one level.

## Main definitions

* `First.definition`, `First.statement`, `First.primary`, `First.expression` — what starts a phrase.
* `First.comparison`, `relation`, `sum`, `product`, `sign`, `literal` — operators and literals.
-/

namespace Drac.Syntax.First

open Category

/-- What a definition starts with. -/
def definition : CategorySet := .ofList [kwVar, identifier]

/-- What a statement starts with. -/
def statement : CategorySet :=
  .ofList [identifier, kwIf, kwWhile, kwDo, kwBreak, kwReturn, kwInc, kwDec, semicolon]

/-- The operators of equality. -/
def comparison : CategorySet := .ofList [equal, notEqual]

/-- The operators of order. -/
def relation : CategorySet := .ofList [less, lessEqual, greater, greaterEqual]

/-- The operators between terms. -/
def sum : CategorySet := .ofList [plus, minus]

/-- The operators between factors. -/
def product : CategorySet := .ofList [mul, div, mod]

/-- The operators in front of an operand. -/
def sign : CategorySet := .ofList [plus, minus, kwNot]

/-- The literals. -/
def literal : CategorySet := .ofList [kwTrue, kwFalse, intLiteral, charLiteral, stringLiteral]

/-- What an operand without a sign starts with. -/
def primary : CategorySet := .ofList [identifier, openBracket, openParen] ∪ literal

/-- What an expression starts with. -/
def expression : CategorySet := sign ∪ primary

end Drac.Syntax.First
