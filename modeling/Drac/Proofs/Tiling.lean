import Drac.Lexer.Span
import Drac.Proofs.Scanning

/-!
# Spans tile a text

At every place of a text some rule applies: the last two rules take a line break and any other
character.  So the spans of a text leave nothing out, and each is the preferred match of the first
rule of the table that matches where the span starts.

## Main definitions

* `FirstMatch` — what the table takes at the start of a text.
* `Tiles` — a text is cut into first matches.

## Main results

* `nextSpan?_eq_some_iff` — the next span is the first match.
* `nextSpan?_eq_none_iff` — there is one unless the text is empty.
* `tiles_iff` — **the spans of a text are the one way to cut it into first matches.**
-/

namespace Drac.Lexer

/-! ### First matches -/

/-- A span and what follows it make up a text, no rule before that of the span matches at its start,
and the span is what the preferred match of its rule takes. -/
structure FirstMatch (cs : List Char) (s : Span) (rest : List Char) : Prop where
  split : s.text ++ rest = cs
  first : ∃ earlier later, Rule.table = earlier ++ s.rule :: later ∧
    ∀ r ∈ earlier, r.pattern.rests cs = []
  preferred : s.rule.pattern.preferred? cs = some rest

theorem Rule.width?_eq_none_iff {r : Rule} {cs : List Char} :
    r.width? cs = none ↔ r.pattern.rests cs = [] := by
  rw [← List.head?_eq_none_iff, ← Option.map_eq_none_iff (f := (cs.drop ·)), drop_width?]
  rfl

theorem nextSpan?_eq_some_iff {cs rest : List Char} {s : Span} :
    nextSpan? cs = some (s, rest) ↔ FirstMatch cs s rest := by
  have hnone (r : Rule) : ((r.width? cs).map fun n => (Span.mk r (cs.take n), cs.drop n)) = none ↔
      r.pattern.rests cs = [] := by
    rw [Option.map_eq_none_iff, Rule.width?_eq_none_iff]
  constructor
  · intro h
    have hsplit := nextSpan?_append h
    obtain ⟨earlier, r, later, htable, hr, hearlier⟩ := List.findSome?_eq_some_iff.mp h
    obtain ⟨n, hn, he⟩ := Option.map_eq_some_iff.mp hr
    cases he
    refine ⟨hsplit, ⟨earlier, later, htable, fun r hr => (hnone r).mp (hearlier r hr)⟩, ?_⟩
    rw [← Rule.drop_width?, hn]
    rfl
  · rintro ⟨hsplit, ⟨earlier, later, htable, hearlier⟩, hpref⟩
    rw [← Rule.drop_width?] at hpref
    obtain ⟨n, hn, hrest⟩ := Option.map_eq_some_iff.mp hpref
    have htext : s.text = cs.take n := by
      have hsame : s.text ++ rest = cs.take n ++ rest := by
        rw [hsplit, ← hrest, List.take_append_drop]
      exact List.append_cancel_right hsame
    refine List.findSome?_eq_some_iff.mpr ⟨earlier, s.rule, later, htable, ?_,
      fun r hr => (hnone r).mpr (hearlier r hr)⟩
    rw [hn, Option.map_some, ← htext, hrest]

/-- Rules that stand higher in the table do not match. -/
theorem FirstMatch.rests_eq_nil {cs rest : List Char} {s : Span} (h : FirstMatch cs s rest) {r : Rule}
    (hr : r.index < s.rule.index) : r.pattern.rests cs = [] := by
  obtain ⟨earlier, later, htable, hearlier⟩ := h.first
  apply hearlier
  by_contra hnot
  rw [Rule.index, Rule.index, htable, List.idxOf_append_of_notMem hnot] at hr
  by_cases hs : s.rule ∈ earlier
  · rw [List.idxOf_append_of_mem hs] at hr
    have hindex := List.idxOf_lt_length_of_mem hs
    omega
  · rw [List.idxOf_append_of_notMem hs, List.idxOf_cons_self] at hr
    omega

/-- Some rule applies wherever there is a character. -/
theorem nextSpan?_eq_none_iff {cs : List Char} : nextSpan? cs = none ↔ cs = [] := by
  constructor
  · intro h
    rw [nextSpan?, List.findSome?_eq_none_iff] at h
    cases cs with
    | nil => rfl
    | cons c cs =>
      have hnewline := h .newline (by decide)
      have hother := h .other (by decide)
      rw [Option.map_eq_none_iff] at hnewline hother
      by_cases hc : c = '\n'
      · rw [hc] at hnewline
        cases hnewline
      · rw [Rule.width?, if_neg hc] at hother
        cases hother
  · rintro rfl
    rw [nextSpan?, List.findSome?_eq_none_iff]
    intro r _
    rw [Rule.width?_nil]
    rfl

theorem text_ne_nil_of_nextSpan? {cs rest : List Char} {s : Span}
    (h : nextSpan? cs = some (s, rest)) : s.text ≠ [] := by
  intro hnil
  have happend := nextSpan?_append h
  have hlt := nextSpan?_lt h
  rw [hnil, List.nil_append] at happend
  rw [happend] at hlt
  exact Nat.lt_irrefl _ hlt

/-! ### Tilings -/

/-- A text is cut into spans none of which is empty, each the first match where it starts. -/
inductive Tiles : List Char → List Span → Prop
  | nil : Tiles [] []
  | cons {cs rest : List Char} {s : Span} {ss : List Span} (hs : s.text ≠ [])
      (hfirst : FirstMatch cs s rest) (hrest : Tiles rest ss) : Tiles cs (s :: ss)

theorem spans_nil : spans [] = [] := by
  rw [spans]
  rfl

theorem spans_of_nextSpan? {cs rest : List Char} {s : Span} (h : nextSpan? cs = some (s, rest)) :
    spans cs = s :: spans rest := by
  rw [spans]
  split
  · next hnone => rw [h] at hnone; cases hnone
  · next hsome => rw [h] at hsome; cases hsome; rfl

theorem tiles_spans (cs : List Char) : Tiles cs (spans cs) := by
  fun_induction spans cs with
  | case1 cs h =>
    rw [nextSpan?_eq_none_iff.mp h]
    exact .nil
  | case2 cs s rest h ih =>
    exact .cons (text_ne_nil_of_nextSpan? h) (nextSpan?_eq_some_iff.mp h) ih

theorem Tiles.eq_spans {cs : List Char} {ss : List Span} (h : Tiles cs ss) : ss = spans cs := by
  induction h with
  | nil => rw [spans_nil]
  | cons hs hfirst _ ih => rw [spans_of_nextSpan? (nextSpan?_eq_some_iff.mpr hfirst), ih]

/-- There is one way to cut a text into first matches. -/
theorem tiles_iff {cs : List Char} {ss : List Span} : Tiles cs ss ↔ ss = spans cs := by
  constructor
  · exact Tiles.eq_spans
  · rintro rfl
    exact tiles_spans cs

/-- Nothing is left out and nothing is taken twice. -/
theorem Tiles.flatMap_text {cs : List Char} {ss : List Span} (h : Tiles cs ss) :
    ss.flatMap Span.text = cs := by
  induction h with
  | nil => rfl
  | cons hs hfirst _ ih => rw [List.flatMap_cons, ih, hfirst.split]

end Drac.Lexer
