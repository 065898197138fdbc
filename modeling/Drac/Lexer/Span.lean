import Drac.Lexer.Rule

/-!
# Spans

A text is cut into spans, each of which is what the first rule that applies takes.

## Main definitions

* `Span`, `nextSpan?` — a span, and the one at the start of a text.
* `spans` — all spans of a text.
* `Span.category?` — the category of the token that a span becomes; comments and white space become
  none.

## Main results

* `nextSpan?_append`, `nextSpan?_lt` — a span is a part of the text, and not an empty one.
-/

namespace Drac.Lexer

/-- A piece of a text and the rule that took it. -/
structure Span where
  /-- The rule. -/
  rule : Rule
  /-- The characters. -/
  text : List Char
  deriving DecidableEq, Repr

/-- The span at the start of a text, by the first rule that applies, and what follows it. -/
def nextSpan? (cs : List Char) : Option (Span × List Char) :=
  Rule.table.findSome? fun r => (r.width? cs).map fun n => (⟨r, cs.take n⟩, cs.drop n)

theorem exists_of_nextSpan? {cs rest : List Char} {s : Span}
    (h : nextSpan? cs = some (s, rest)) :
    ∃ n, s.rule.width? cs = some n ∧ s.text = cs.take n ∧ rest = cs.drop n := by
  obtain ⟨r, -, hr⟩ := List.exists_of_findSome?_eq_some h
  obtain ⟨n, hn, he⟩ := Option.map_eq_some_iff.mp hr
  cases he
  exact ⟨n, hn, rfl, rfl⟩

/-- A span and what follows it make up the text. -/
theorem nextSpan?_append {cs rest : List Char} {s : Span} (h : nextSpan? cs = some (s, rest)) :
    s.text ++ rest = cs := by
  obtain ⟨n, -, ht, hr⟩ := exists_of_nextSpan? h
  rw [ht, hr, List.take_append_drop]

/-- What follows a span is shorter than the text. -/
theorem nextSpan?_lt {cs rest : List Char} {s : Span} (h : nextSpan? cs = some (s, rest)) :
    rest.length < cs.length := by
  obtain ⟨n, hn, -, hr⟩ := exists_of_nextSpan? h
  have hpos := Rule.width?_pos hn
  have hne : cs ≠ [] := by
    rintro rfl
    simp at hn
  have hlength := List.length_pos_iff.mpr hne
  rw [hr, List.length_drop]
  omega

set_option linter.unusedVariables false in
/-- The spans of a text in order. -/
def spans (cs : List Char) : List Span :=
  match h : nextSpan? cs with
  | none => []
  | some (s, rest) => s :: spans rest
termination_by cs.length
decreasing_by exact nextSpan?_lt h

/-- The category of the token that a span becomes: a word that is reserved has its own, and comments
and white space have none. -/
def Span.category? (s : Span) : Option Category :=
  match s.rule.kind with
  | .token c => some c
  | .word => some ((Category.ofReservedWord? (String.ofList s.text)).getD .identifier)
  | .illegal => some .illegalChar
  | .blockComment | .lineComment | .newline | .whitespace => none

/-- Whether a span is a comment. -/
def Span.isComment (s : Span) : Bool :=
  s.rule.kind == .blockComment || s.rule.kind == .lineComment

end Drac.Lexer
