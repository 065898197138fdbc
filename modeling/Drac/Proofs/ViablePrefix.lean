import Drac.Proofs.Recognition

/-!
# Errors at the first misfit

The recognizer stops neither too late nor too early.  The tokens that it has passed when it stops are
the beginning of some program, however deeply that program is nested, and with the token that it
stops at they are the beginning of none.  Both halves are about all continuations: the first one is
found from what is pending, the second one is refuted by running on under a larger limit.

## Main results

* `Reaches.viable` — passed tokens begin a program.
* `Reaches.not_viable_of_reject` — with a token that does not fit they begin none.
* `Parser.program_unexpectedToken` — **the recognizer stops at the first token that does not fit.**
-/

namespace Drac.Syntax

open Category

namespace Reaches

variable {limit : ℕ} {p : List Category} {t : Stage}

/-- What has been passed is the beginning of a program. -/
theorem viable (h : Reaches limit .start p t) : Viable p := by
  obtain ⟨limit', w, hw⟩ :=
    exists_mem_spelled (h.wellFormed Stage.wellFormed_start).exists_mem_of_oneOf t.depth
  have hwords : p ++ w ∈ Stage.start.words (max limit limit') :=
    (h.mono (le_max_left _ _)).mem_words (spelled_mono (le_max_right _ _) hw)
  have hderives := Stage.mem_words_start.mp hwords
  obtain ⟨u, hu, -⟩ := eq_append_eof_of_derives_program hderives
  rcases List.eq_nil_or_concat w with rfl | ⟨v, a, rfl⟩
  · rw [List.append_nil] at hu
    exact absurd (hu ▸ List.mem_append_right u List.mem_cons_self) h.notMem_eof
  · rw [List.concat_eq_append, ← List.append_assoc] at hu hderives
    obtain ⟨-, ha⟩ := List.append_inj' hu rfl
    exact ⟨_, v, by rwa [ha] at hderives⟩

/-- A verdict that is not about nesting is the verdict under every larger limit. -/
theorem settle_eq_reject {limit' : ℕ} {c : Category} {e : Expected} {d : ℕ} {k : List Symbol}
    (hl : limit ≤ limit') (hr : settle limit c t.depth t.pending = .reject (.expected e) d k) :
    settle limit' c t.depth t.pending = .reject (.expected e) d k := by
  rw [settle_mono hl (by rw [hr]; simp), hr]

/-- With a token that does not fit, what has been passed is the beginning of no program. -/
theorem not_viable_of_reject (h : Reaches limit .start p t) {c : Category} {e : Expected} {d : ℕ}
    {k : List Symbol} (hr : settle limit c t.depth t.pending = .reject (.expected e) d k) :
    ¬ Viable (p ++ [c]) := by
  rintro ⟨limit', w, hs⟩
  rw [List.append_assoc, List.singleton_append] at hs
  obtain ⟨d', k', hshift⟩ :=
    (h.mono (le_max_left limit limit')).settle_shift (hs.mono (le_max_right limit limit'))
  rw [settle_eq_reject (le_max_left limit limit') hr] at hshift
  cases hshift

/-- If the end of the input does not fit, what has been passed is no program. -/
theorem not_sentence_of_reject (h : Reaches limit .start p t) {e : Expected} {d : ℕ}
    {k : List Symbol} (hr : settle limit eof t.depth t.pending = .reject (.expected e) d k)
    (limit' : ℕ) : ¬ Sentence limit' p := by
  intro hs
  obtain ⟨d', haccept⟩ :=
    (h.mono (le_max_left limit limit')).settle_accept (hs.mono (le_max_right limit limit'))
  rw [settle_eq_reject (le_max_left limit limit') hr] at haccept
  cases haccept

end Reaches

namespace Parser

/-- **The recognizer stops at the first token that does not fit.**  It reports the token after those
that it counts; what it has passed is the beginning of some program, and with the reported token of
none, or no program at all if the end of the input is reported. -/
theorem program_unexpectedToken {limit : ℕ} {ts : List Token} {e : Expected} {found : Token}
    (h : (start limit ts).program.1 = .error (.unexpectedToken e found)) :
    ∃ k ≤ ts.length, (start limit ts).program.2.consumed = k ∧ found = tokenAt ts k ∧
      Viable ((ts.take k).map Token.category) ∧
      (found.category ≠ eof → ¬ Viable ((ts.take k).map Token.category ++ [found.category])) ∧
      (found.category = eof → ∀ d, ¬ Sentence d ((ts.take k).map Token.category)) := by
  obtain ⟨t, hle, hreach, hend⟩ := program_spec limit ts
  refine ⟨_, hle, rfl, ?_⟩
  generalize (start limit ts).program.2.consumed = k at hreach hend
  rw [h] at hend
  obtain ⟨d, rest, hr, rfl⟩ := Verdict.exists_eq_reject hend
  refine ⟨rfl, hreach.viable, fun _ => hreach.not_viable_of_reject hr, fun heof => ?_⟩
  exact hreach.not_sentence_of_reject (heof ▸ hr)

/-- In `f ( ) { x = 1 }` the last brace is the first token that does not fit: it is met behind
an operand, and refused by the statement that the operand belongs to. -/
theorem program_unexpectedToken_of_missing_semicolon :
    let cs := [identifier, openParen, closeParen, openBrace, identifier, assign, intLiteral]
    let ts : List Token := (cs ++ [closeBrace]).map fun c => ⟨none, c, .start⟩
    (start 2 ts).program.1 =
        .error (.unexpectedToken (.category semicolon) ⟨none, closeBrace, .start⟩) ∧
      Viable cs ∧ ¬ Viable (cs ++ [closeBrace]) := by
  intro cs ts
  have h : (start 2 ts).program.1 =
      .error (.unexpectedToken (.category semicolon) ⟨none, closeBrace, .start⟩) := by
    decide +kernel
  obtain ⟨k, -, hk, -, hviable, hnot, -⟩ := program_unexpectedToken h
  obtain rfl : 7 = k := hk ▸ by decide +kernel
  exact ⟨h, hviable, hnot (by decide)⟩

end Parser

end Drac.Syntax
