import Drac.Syntax.Error
import Drac.Syntax.Grammar
import Drac.Token.Cursor

/-!
# The recognizer

The recognizer keeps a list of what must still follow.  Between two tokens it settles that list by
the category of the next token alone: phrases are replaced by their forms until the list starts
with the next token, is used up, or cannot go on.  No tree is built.

## Main definitions

* `Verdict`, `settle` — what the next token decides.
* `Symbol.closes` — the levels of nesting that end if pending symbols are given up.
* `Parser`, `Parser.start` — a recognizer, and the one at the start of a source.
* `Parser.run`, `Parser.parse`, `Parser.program` — recognizing a list of symbols, a phrase, a
  program.
* `Parser.expect`, `Parser.expectOneOf` — recognizing one token.

## Main results

* `ne_eof_of_settle_shift` — the end of the input is matched but never passed.
-/

namespace Drac.Syntax

/-! ### One token of lookahead -/

/-- Why the next token does not fit. -/
inductive Refusal
  /-- Something else would have fitted. -/
  | expected (e : Expected)
  /-- A level of nesting starts at the limit. -/
  | tooDeep
  deriving DecidableEq, Repr

/-- The error for a token that does not fit. -/
def Refusal.error (limit : Nat) (found : Token) : Refusal → SyntaxError
  | expected e => .unexpectedToken e found
  | tooDeep => .maxNestingDepth limit found

/-- What the next token decides. -/
inductive Verdict
  /-- Nothing more must follow; `depth` levels of nesting are open. -/
  | accept (depth : Nat)
  /-- The token fits, and `pending` must follow it. -/
  | shift (depth : Nat) (pending : List Symbol)
  /-- The token does not fit: `pending` starts with the symbol that refuses it, and `depth` levels of
  nesting are open. -/
  | reject (cause : Refusal) (depth : Nat) (pending : List Symbol)
  deriving DecidableEq, Repr

set_option linter.unusedVariables false in
/-- Settles what must follow by the category of the next token.  The end of the input fits without
being passed. -/
def settle (limit : Nat) (lookahead : Category) (depth : Nat) (pending : List Symbol) : Verdict :=
  match pending with
  | [] => .accept depth
  | .token c :: k =>
    if c = lookahead then
      if lookahead = .eof then settle limit lookahead depth k else .shift depth k
    else .reject (.expected (.category c)) depth (.token c :: k)
  | .oneOf s :: k =>
    if s.contains lookahead then
      if lookahead = .eof then settle limit lookahead depth k else .shift depth k
    else .reject (.expected (.oneOf s)) depth (.oneOf s :: k)
  | .enter :: k =>
    if limit ≤ depth then .reject .tooDeep depth (.enter :: k)
    else settle limit lookahead (depth + 1) k
  | .leave :: k => settle limit lookahead (depth - 1) k
  | .phrase n :: k =>
    match h : n.production.predict lookahead with
    | .ok body => settle limit lookahead depth (body ++ k)
    | .error s => .reject (.expected (.oneOf s)) depth (.phrase n :: k)
termination_by Symbol.weight pending
decreasing_by
  · simp_all [Symbol.weight, Symbol.rank, Symbol.passable]
  · simp_all [Symbol.weight, Symbol.rank, Symbol.passable]
  · simp [Symbol.weight, Symbol.rank, Symbol.passable]
  · simp [Symbol.weight, Symbol.rank, Symbol.passable]
  · exact Phrase.weight_predict_lt h k

/-- The end of the input is never passed. -/
theorem ne_eof_of_settle_shift {limit depth d : Nat} {c : Category} {pending k : List Symbol}
    (h : settle limit c depth pending = .shift d k) : c ≠ .eof := by
  fun_induction settle limit c depth pending <;> simp_all

/-- The number of levels of nesting that pending symbols end without having started them.  Each of
them ends as well if the symbols are given up. -/
def Symbol.closes : List Symbol → Nat
  | [] => 0
  | .leave :: k => closes k + 1
  | .enter :: k => closes k - 1
  | .token _ :: k | .oneOf _ :: k | .phrase _ :: k => closes k

/-! ### Recognizers -/

/-- A recognizer on its way through a source of tokens. -/
structure Parser (σ : Type) where
  /-- The place in the source. -/
  cursor : Cursor σ
  /-- The number of levels of nesting that are open. -/
  depth : Nat
  /-- The number of levels that may be open. -/
  maxDepth : Nat

/-- The outcome of recognizing something. -/
abbrev Outcome := Except SyntaxError Unit

namespace Parser

variable {σ : Type} [TokenSource σ]

/-- The recognizer at the start of a source. -/
def start (maxDepth : Nat) (s : σ) : Parser σ := ⟨Cursor.start s, 0, maxDepth⟩

/-- The recognizer past the next token. -/
def advance (p : Parser σ) : Parser σ := { p with cursor := p.cursor.advance }

/-- The number of tokens that have been passed. -/
def consumed (p : Parser σ) : Nat := p.cursor.consumed

set_option linter.unusedVariables false in
/-- Recognizes a list of symbols.  When a token does not fit, what is pending is given up, and each
level of nesting that it would have ended ends. -/
def run (pending : List Symbol) (p : Parser σ) : Outcome × Parser σ :=
  match h : settle p.maxDepth p.cursor.category p.depth pending with
  | .accept d => (.ok (), { p with depth := d })
  | .reject cause d rest =>
    (.error (cause.error p.maxDepth p.cursor.current), { p with depth := d - Symbol.closes rest })
  | .shift d rest => run rest { p.advance with depth := d }
termination_by p.cursor.remaining
decreasing_by
  have hc := ne_eof_of_settle_shift h
  exact Cursor.remaining_advance_lt (by simpa [Token.isEof, Cursor.category] using hc)

/-- Recognizes a phrase. -/
def parse (n : Phrase) (p : Parser σ) : Outcome × Parser σ := run [.phrase n] p

/-- Recognizes a whole program. -/
def program (p : Parser σ) : Outcome × Parser σ := parse .program p

/-- Passes the next token if it fits, and gives it. -/
def expecting (e : Expected) (p : Parser σ) : Except SyntaxError Token × Parser σ :=
  if e.contains p.cursor.category then (.ok p.cursor.current, p.advance)
  else (.error (.unexpectedToken e p.cursor.current), p)

/-- Passes the next token if it has a given category. -/
def expect (c : Category) (p : Parser σ) : Except SyntaxError Token × Parser σ :=
  p.expecting (.category c)

/-- Passes the next token if its category is in a set. -/
def expectOneOf (s : CategorySet) (p : Parser σ) : Except SyntaxError Token × Parser σ :=
  p.expecting (.oneOf s)

end Parser

end Drac.Syntax
