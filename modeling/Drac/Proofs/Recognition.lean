import Drac.Proofs.Settle
import Drac.Proofs.Stream

/-!
# The recognizer recognizes the grammar

The recognizer passes tokens as long as settling lets it, and ends with the verdict on the token it
stands on.  With what the next token decides (`Drac.Proofs.Settle`) this makes acceptance the same as
derivability, nesting included.

## Main definitions

* `Verdict.outcome?` — the outcome that a verdict on a token gives, if it ends the run.

## Main results

* `Parser.run_spec` — a run passes some tokens and ends with the verdict on the next one.
* `Parser.program_spec` — the same for the tokens of a list, read from the start.
* `Parser.program_ok_iff` — **a list of tokens is accepted exactly if it is a program** of the
  grammar within the limit of nesting.
-/

namespace Drac.Syntax

open Category

/-- The outcome that the verdict on a token gives; none if the token is passed. -/
def Verdict.outcome? (limit : ℕ) (found : Token) : Verdict → Option Outcome
  | accept _ => some (.ok ())
  | shift .. => none
  | reject cause _ _ => some (.error (cause.error limit found))

/-- A run ends well only where nothing more must follow. -/
theorem Verdict.exists_eq_accept {limit : ℕ} {found : Token} {v : Verdict}
    (h : v.outcome? limit found = some (.ok ())) : ∃ d, v = .accept d := by
  cases v with
  | accept d => exact ⟨d, rfl⟩
  | shift d k => cases h
  | reject cause d k => cases h

/-- A run ends with an unexpected token only where that token was refused, and not for nesting. -/
theorem Verdict.exists_eq_reject {limit : ℕ} {found t : Token} {e : Expected} {v : Verdict}
    (h : v.outcome? limit found = some (.error (.unexpectedToken e t))) :
    ∃ d k, v = .reject (.expected e) d k ∧ t = found := by
  cases v with
  | accept d => cases h
  | shift d k => cases h
  | reject cause d k =>
    cases cause with
    | expected e' =>
      cases h
      exact ⟨d, k, rfl, rfl⟩
    | tooDeep => cases h

namespace Reaches

variable {limit : ℕ} {p : List Category} {t : Stage}

/-- No token that has been passed is the end of the input. -/
theorem isEof_eq_false {s : Stage} {us : List Token}
    (h : Reaches limit s (us.map Token.category) t) : ∀ u ∈ us, u.isEof = false := by
  intro u hu
  have hne : eof ≠ u.category := fun heof => h.notMem_eof (heof ▸ List.mem_map_of_mem hu)
  simpa [Token.isEof] using hne.symm

/-! ### Runs from the start of a program -/

/-- If nothing must follow after a run, the run was over a program and the input is at its end. -/
theorem sentence_of_accept (h : Reaches limit .start p t) {c : Category} {d : ℕ}
    (hd : settle limit c t.depth t.pending = .accept d) : c = eof ∧ Sentence limit p := by
  obtain ⟨w, hw, ha⟩ := exists_mem_spelled_of_settle_accept hd
  have hderives := Stage.mem_words_start.mp (h.mem_words hw)
  obtain ⟨u, hu, hnot⟩ := eq_append_eof_of_derives_program hderives
  rcases List.eq_nil_or_concat w with rfl | ⟨v, a, rfl⟩
  · -- the end of the input would have been passed
    rw [List.append_nil] at hu
    exact absurd (hu ▸ List.mem_append_right u List.mem_cons_self) h.notMem_eof
  · rw [List.concat_eq_append] at hw ha hu hderives
    obtain ⟨hae, hce⟩ := ha a (by simp)
    rw [← List.append_assoc] at hu
    obtain ⟨hpv, -⟩ := List.append_inj' hu rfl
    have hv : v = [] := by
      refine List.eq_nil_iff_forall_not_mem.mpr fun b hb => hnot ?_
      rw [← hpv, ← (ha b (by simp [hb])).1]
      exact List.mem_append_right _ hb
    subst hv hae
    exact ⟨hce, hderives⟩

/-- A token that goes on towards a program is passed. -/
theorem settle_shift (h : Reaches limit .start p t) {c : Category} {w : List Category}
    (hs : Sentence limit (p ++ c :: w)) : ∃ d k, settle limit c t.depth t.pending = .shift d k := by
  have hne : c ≠ eof := fun hc => hs.notMem_eof (by simp [hc])
  have hw : c :: (w ++ [eof]) ∈ t.words limit := by
    refine h.mem_words_rest Stage.wellFormed_start (Stage.mem_words_start.mpr ?_)
    simpa [Sentence] using hs
  obtain ⟨d, k, hk, -⟩ :=
    settle_shift_of_mem_spelled (h.wellFormed Stage.wellFormed_start) hne hw
  exact ⟨d, k, hk⟩

/-- The end of the input after a program is accepted. -/
theorem settle_accept (h : Reaches limit .start p t) (hs : Sentence limit p) :
    ∃ d, settle limit eof t.depth t.pending = .accept d := by
  have hw : [eof] ∈ t.words limit :=
    h.mem_words_rest Stage.wellFormed_start (Stage.mem_words_start.mpr hs)
  exact settle_accept_of_mem_spelled (h.wellFormed Stage.wellFormed_start) (by decide) hw
    (by simp)

end Reaches

namespace Parser

/-! ### Runs of the recognizer -/

/-- A run passes some tokens, as settling allows, and ends with the verdict on the next one. -/
theorem run_spec {σ : Type} [TokenSource σ] (pending : List Symbol) (p : Parser σ) :
    ∃ n t, (run pending p).2.cursor = Cursor.advance^[n] p.cursor ∧
      Reaches p.maxDepth ⟨p.depth, pending⟩ ((p.cursor.upcoming n).map Token.category) t ∧
      (settle p.maxDepth (Cursor.advance^[n] p.cursor).category t.depth t.pending).outcome?
          p.maxDepth (Cursor.advance^[n] p.cursor).current =
        some (run pending p).1 := by
  fun_induction run pending p with
  | case1 pending p d h => exact ⟨0, ⟨p.depth, pending⟩, rfl, .refl _, by simp [h, Verdict.outcome?]⟩
  | case2 pending p cause d k h =>
    exact ⟨0, ⟨p.depth, pending⟩, rfl, .refl _, by simp [h, Verdict.outcome?]⟩
  | case3 pending p d k h ih =>
    obtain ⟨n, t, hcursor, hreach, hend⟩ := ih
    exact ⟨n + 1, t, hcursor, .step (t := ⟨d, k⟩) h hreach, hend⟩

/-- The recognizer at the start of a list passes the tokens that it counts, as settling allows, and
ends with the verdict on the token after them. -/
theorem program_spec (limit : ℕ) (ts : List Token) :
    ∃ t, (start limit ts).program.2.consumed ≤ ts.length ∧
      Reaches limit .start
        ((ts.take (start limit ts).program.2.consumed).map Token.category) t ∧
      (settle limit (tokenAt ts (start limit ts).program.2.consumed).category t.depth
          t.pending).outcome? limit (tokenAt ts (start limit ts).program.2.consumed) =
        some (start limit ts).program.1 := by
  obtain ⟨n, t, hcursor, hreach, hend⟩ := run_spec [.phrase .program] (start limit ts)
  obtain ⟨hat, hup⟩ := (Cursor.at_start ts).iterate_advance hreach.isEof_eq_false
  rw [Nat.zero_add] at hat
  have hconsumed : (start limit ts).program.2.consumed = n := by
    show (run [.phrase .program] (start limit ts)).2.cursor.consumed = n
    rw [hcursor]
    exact hat.consumed_eq
  rw [hconsumed, ← hat.current_eq]
  refine ⟨t, hat.le_length, ?_, hend⟩
  rw [← List.drop_zero (l := ts), ← hup]
  exact hreach

/-! ### Acceptance -/

/-- **The recognizer accepts exactly the programs**: the categories before the first end of the
input, or all of them if there is none, have a derivation with at most as many levels of nesting as
the limit allows. -/
theorem program_ok_iff (limit : ℕ) (ts : List Token) :
    (start limit ts).program.1 = .ok () ↔
      Sentence limit ((ts.takeWhile fun t => !t.isEof).map Token.category) := by
  obtain ⟨t, -, hreach, hend⟩ := program_spec limit ts
  generalize (start limit ts).program.2.consumed = n at hreach hend
  generalize (start limit ts).program.1 = outcome at hend
  have hpassed := hreach.isEof_eq_false
  constructor
  · rintro rfl
    obtain ⟨d, hd⟩ := Verdict.exists_eq_accept hend
    obtain ⟨heof, hs⟩ := hreach.sentence_of_accept hd
    rwa [takeWhile_eq_take hpassed (Token.isEof_iff.mpr heof)]
  · intro hs
    rw [takeWhile_eq_take_append hpassed, List.map_append] at hs
    by_cases heof : (tokenAt ts n).isEof = true
    · rw [← List.map_append, ← takeWhile_eq_take_append hpassed,
        takeWhile_eq_take hpassed heof] at hs
      obtain ⟨d, hd⟩ := hreach.settle_accept hs
      rw [Token.isEof_iff.mp heof, hd] at hend
      exact (Option.some.inj hend).symm
    · have hlt : n < ts.length := lt_length_of_tokenAt (by simpa using heof)
      rw [tokenAt_of_lt hlt] at heof hend
      rw [List.drop_eq_getElem_cons hlt, List.takeWhile_cons_of_pos (by simpa using heof)] at hs
      obtain ⟨d, k, hk⟩ := hreach.settle_shift hs
      rw [hk] at hend
      cases hend

end Parser

end Drac.Syntax
