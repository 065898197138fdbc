import Drac.Proofs.Lookahead
import Drac.Proofs.Unfolding

/-!
# What the next token decides

Settling goes by moves (`Drac.Proofs.Unfolding`).  This module compares the words that the pending
symbols stand for before the moves and after them: no word is invented and, if the pending symbols are
well-formed, no word is lost.  A run of the recognizer over a word of categories is a chain of such steps.

## Main definitions

* `Stage.words` — the words that may follow.
* `Reaches limit s p t` — from the stage `s` the categories `p` are passed one by one up to `t`.

## Main results

* `Unfolds.mem_words` — the words of a stage are words of those before it.
* `mem_spelled_of_settle_shift`, `exists_mem_spelled_of_settle_accept` — no word is invented.
* `settle_shift_of_mem_spelled`, `settle_accept_of_mem_spelled` — no word is lost.
* `Reaches.mem_words`, `Reaches.mem_words_rest` — the same for a whole run.
-/

namespace Drac.Syntax

open Category

/-! ### Stages -/

namespace Stage

/-- The words that may follow. -/
def words (limit : ℕ) (s : Stage) : Language Category := spelled limit s.depth s.pending

theorem mem_words_start {limit : ℕ} {w : List Category} :
    w ∈ start.words limit ↔ Derives limit Nonterminal.program w := by
  simp [words, start, spelled_phrase, Ebnf.mem_language, Ebnf.ofPhrase]

/-- The stage before a program is well-formed in front of the end of the input. -/
theorem wellFormed_start : WellFormed (.ofList [eof]) start.pending := by decide

end Stage

/-! ### No word is invented -/

section

variable {limit : ℕ} {c : Category} {s t : Stage}

/-- A word of the stage after a move is one of the stage before it, behind the end of the input if that
was matched. -/
theorem Move.mem_words (h : Move limit c s t) {limit' : ℕ} (hl : limit ≤ limit')
    {w : List Category} (hw : w ∈ t.words limit') :
    ∃ v, (∀ a ∈ v, a = eof ∧ c = eof) ∧ v ++ w ∈ s.words limit' := by
  cases h with
  | enter hd => exact ⟨[], by simp, mem_spelled_enter.mpr ⟨hd.trans_le hl, hw⟩⟩
  | leave => exact ⟨[], by simp, hw⟩
  | predict hbody =>
    exact ⟨[], by simp, mem_spelled_phrase.mpr ⟨_, Production.mem_bodies_of_predict hbody, hw⟩⟩
  | atEnd ha hc =>
    refine ⟨[eof], by simpa using hc, ?_⟩
    rcases Symbol.eq_of_reads ha with rfl | ⟨s, rfl, hs⟩
    · exact mem_spelled_token.mpr ⟨w, hw, rfl⟩
    · exact mem_spelled_oneOf.mpr ⟨eof, hs, w, hw, rfl⟩

/-- The words of a stage are words of those before it, behind the ends of the input that were matched. -/
theorem Unfolds.mem_words (h : Unfolds limit c s t) {limit' : ℕ} (hl : limit ≤ limit')
    {w : List Category} (hw : w ∈ t.words limit') :
    ∃ v, (∀ a ∈ v, a = eof ∧ c = eof) ∧ v ++ w ∈ s.words limit' := by
  induction h generalizing w with
  | refl => exact ⟨[], by simp, hw⟩
  | tail _ hmove ih =>
    obtain ⟨v, hv, hvw⟩ := hmove.mem_words hl hw
    obtain ⟨u, hu, huv⟩ := ih hvw
    refine ⟨u ++ v, fun a ha => ?_, by rwa [List.append_assoc]⟩
    exact (List.mem_append.mp ha).elim (hu a) (hv a)

/-- Before any other token than the end of the input no word is put in front. -/
theorem Unfolds.mem_words_of_ne (h : Unfolds limit c s t) (hc : c ≠ eof) {limit' : ℕ}
    (hl : limit ≤ limit') {w : List Category} (hw : w ∈ t.words limit') : w ∈ s.words limit' := by
  obtain ⟨v, hv, hvw⟩ := h.mem_words hl hw
  have hnil : v = [] := List.eq_nil_iff_forall_not_mem.mpr fun a ha => hc (hv a ha).2
  rwa [hnil] at hvw

/-- After a token has been passed, what still follows completes a word of what was pending. -/
theorem mem_spelled_of_settle_shift {depth d : ℕ} {pending k : List Symbol} {w : List Category}
    (h : settle limit c depth pending = .shift d k) (hw : w ∈ spelled limit d k) :
    c :: w ∈ spelled limit depth pending := by
  obtain ⟨a, hu, ha, hne⟩ := exists_of_settle_shift h
  have hfront : c :: w ∈ spelled limit d (a :: k) := by
    rcases Symbol.eq_of_reads ha with rfl | ⟨s, rfl, hs⟩
    · exact mem_spelled_token.mpr ⟨w, hw, rfl⟩
    · exact mem_spelled_oneOf.mpr ⟨c, hs, w, hw, rfl⟩
  exact hu.mem_words_of_ne hne le_rfl hfront

/-- If nothing must follow any more, nothing was pending but the end of the input. -/
theorem exists_mem_spelled_of_settle_accept {depth d : ℕ} {pending : List Symbol}
    (h : settle limit c depth pending = .accept d) :
    ∃ w ∈ spelled limit depth pending, ∀ a ∈ w, a = eof ∧ c = eof := by
  have hnil : [] ∈ Stage.words limit ⟨d, []⟩ := mem_spelled_nil.mpr rfl
  obtain ⟨w, ha, hw⟩ := (unfolds_of_settle_accept h).mem_words le_rfl hnil
  rw [List.append_nil] at hw
  exact ⟨w, hw, ha⟩

end

/-! ### No word is lost -/

/-- A predicted form keeps what is pending well-formed. -/
theorem WellFormed.predict {after : CategorySet} {n : Phrase} {k body : List Symbol}
    {c : Category} (h : WellFormed after (.phrase n :: k))
    (hb : n.production.predict c = .ok body) : WellFormed after (body ++ k) := by
  refine wellFormed_append.mpr ⟨?_, h.2⟩
  exact (wellFormed_of_mem_bodies (Production.mem_bodies_of_predict hb)).mono h.1

/-- A word of a phrase and of what follows it is a word of the predicted form.  The token `c` is
where the word starts, or what follows it if it is empty. -/
theorem predict_of_mem_spelled {after : CategorySet} {limit depth : ℕ} {n : Phrase}
    {k : List Symbol} {w : List Category} {c : Category} (h : WellFormed after (.phrase n :: k))
    (hw : w ∈ spelled limit depth (.phrase n :: k))
    (hc : w.head? = some c ∨ w = [] ∧ after.contains c = true) :
    ∃ body, n.production.predict c = .ok body ∧ w ∈ spelled limit depth (body ++ k) := by
  obtain ⟨body, hb, hwb⟩ := mem_spelled_phrase.mp hw
  refine ⟨body, predict_of_mem_bodies hb (startOf_mono h.1 body c ?_), hwb⟩
  obtain ⟨hnil, hcons⟩ := start_of_mem_spelled hwb after
  rw [startOf_append] at hnil hcons
  rcases hc with hc | ⟨rfl, hc⟩
  · obtain ⟨v, rfl⟩ := List.head?_eq_some_iff.mp hc
    exact hcons c v rfl
  · exact hnil rfl c hc

/-- A token with which a pending word starts is passed, and the rest of the word stays pending. -/
theorem settle_shift_of_mem_spelled {after : CategorySet} {limit depth : ℕ} {c : Category}
    {pending : List Symbol} {w : List Category} (hp : WellFormed after pending) (hne : c ≠ eof)
    (hw : c :: w ∈ spelled limit depth pending) :
    ∃ d k, settle limit c depth pending = .shift d k ∧ w ∈ spelled limit d k := by
  fun_induction settle limit c depth pending with
  | case1 => cases mem_spelled_nil.mp hw
  | case2 _ _ heof | case5 _ _ _ _ heof => exact absurd heof hne
  | case3 depth k =>
    obtain ⟨v, hv, hcv⟩ := mem_spelled_token.mp hw
    cases hcv
    exact ⟨depth, k, rfl, hv⟩
  | case4 _ c' k hcc =>
    obtain ⟨v, -, hcv⟩ := mem_spelled_token.mp hw
    exact absurd (List.cons.inj hcv).1.symm hcc
  | case6 depth s k hs =>
    obtain ⟨a, -, v, hv, hav⟩ := mem_spelled_oneOf.mp hw
    cases hav
    exact ⟨depth, k, rfl, hv⟩
  | case7 _ s k hs =>
    obtain ⟨a, ha, v, -, hav⟩ := mem_spelled_oneOf.mp hw
    cases hav
    exact absurd ha hs
  | case8 _ _ hd => exact absurd (mem_spelled_enter.mp hw).1 (Nat.not_lt.mpr hd)
  | case9 _ _ _ ih => exact ih hp (mem_spelled_enter.mp hw).2
  | case10 _ _ ih => exact ih hp hw
  | case11 depth n k body hb ih =>
    obtain ⟨body', hb', hw'⟩ := predict_of_mem_spelled hp hw (Or.inl rfl)
    cases hb.symm.trans hb'
    exact ih (hp.predict hb) hw'
  | case12 depth n k s hs =>
    obtain ⟨body', hb', -⟩ := predict_of_mem_spelled hp hw (Or.inl rfl)
    cases hs.symm.trans hb'

/-- At the end of the input a pending word that consists of nothing else is accepted. -/
theorem settle_accept_of_mem_spelled {after : CategorySet} {limit depth : ℕ}
    {pending : List Symbol} {w : List Category} (hp : WellFormed after pending)
    (hafter : after.contains eof = true) (hw : w ∈ spelled limit depth pending)
    (ha : ∀ a ∈ w, a = eof) : ∃ d, settle limit eof depth pending = .accept d := by
  have hstart : ∀ v : List Category, (∀ a ∈ v, a = eof) →
      v.head? = some eof ∨ v = [] ∧ after.contains eof = true := by
    intro v hv
    cases v with
    | nil => exact Or.inr ⟨rfl, hafter⟩
    | cons a v => exact Or.inl (congrArg some (hv a List.mem_cons_self))
  fun_induction settle limit eof depth pending generalizing w with
  | case1 depth => exact ⟨depth, rfl⟩
  | case2 _ _ _ ih =>
    obtain ⟨v, hv, rfl⟩ := mem_spelled_token.mp hw
    exact ih hp hv fun a hav => ha a (List.mem_cons_of_mem _ hav)
  | case3 _ _ hne | case6 _ _ _ _ hne => exact absurd rfl hne
  | case4 _ _ _ hcc =>
    obtain ⟨v, -, rfl⟩ := mem_spelled_token.mp hw
    exact absurd (ha _ List.mem_cons_self) hcc
  | case5 _ _ _ _ _ ih =>
    obtain ⟨c, -, v, hv, rfl⟩ := mem_spelled_oneOf.mp hw
    exact ih hp.2 hv fun a hav => ha a (List.mem_cons_of_mem _ hav)
  | case7 _ _ _ hs =>
    obtain ⟨c, hc, v, -, rfl⟩ := mem_spelled_oneOf.mp hw
    exact absurd (ha c List.mem_cons_self ▸ hc) hs
  | case8 _ _ hd => exact absurd (mem_spelled_enter.mp hw).1 (Nat.not_lt.mpr hd)
  | case9 _ _ _ ih => exact ih hp (mem_spelled_enter.mp hw).2 ha
  | case10 _ _ ih => exact ih hp hw ha
  | case11 _ _ _ _ hb ih =>
    obtain ⟨body, hb', hw'⟩ := predict_of_mem_spelled hp hw (hstart w ha)
    cases hb.symm.trans hb'
    exact ih (hp.predict hb) hw' ha
  | case12 _ _ _ _ hs =>
    obtain ⟨body, hb', -⟩ := predict_of_mem_spelled hp hw (hstart w ha)
    cases hs.symm.trans hb'

section

variable {limit : ℕ} {c : Category} {s t : Stage} {after : CategorySet}

theorem Move.wellFormed (h : Move limit c s t)
    (hs : WellFormed after s.pending) : WellFormed after t.pending := by
  cases h with
  | enter _ => exact hs
  | leave => exact hs
  | predict hbody => exact hs.predict hbody
  | atEnd ha _ =>
    rcases Symbol.eq_of_reads ha with rfl | ⟨s, rfl, -⟩
    · exact hs
    · exact hs.2

theorem Unfolds.wellFormed (h : Unfolds limit c s t)
    (hs : WellFormed after s.pending) : WellFormed after t.pending := by
  induction h with
  | refl => exact hs
  | tail _ hmove ih => exact hmove.wellFormed ih

/-- What is pending after a token is well-formed again. -/
theorem WellFormed.settle_shift {depth d : ℕ} {pending k : List Symbol}
    (hp : WellFormed after pending) (h : settle limit c depth pending = .shift d k) :
    WellFormed after k := by
  obtain ⟨a, hu, ha, -⟩ := exists_of_settle_shift h
  have hfront : WellFormed after (a :: k) := hu.wellFormed hp
  rcases Symbol.eq_of_reads ha with rfl | ⟨s, rfl, -⟩
  · exact hfront
  · exact hfront.2

end

/-! ### Runs -/

/-- `Reaches limit s p t`: from the stage `s` the categories `p` are passed one by one, and the
stage `t` is what they lead to. -/
inductive Reaches (limit : ℕ) : Stage → List Category → Stage → Prop
  | refl (s : Stage) : Reaches limit s [] s
  | step {s t u : Stage} {c : Category} {p : List Category} :
      settle limit c s.depth s.pending = .shift t.depth t.pending →
      Reaches limit t p u → Reaches limit s (c :: p) u

namespace Reaches

variable {limit : ℕ} {s t : Stage} {p : List Category}

/-- The end of the input is never passed. -/
theorem notMem_eof (h : Reaches limit s p t) : eof ∉ p := by
  induction h with
  | refl => exact List.not_mem_nil
  | step hs _ ih =>
    intro hmem
    rcases List.mem_cons.mp hmem with rfl | hp
    · exact ne_eof_of_settle_shift hs rfl
    · exact ih hp

theorem wellFormed {after : CategorySet} (h : Reaches limit s p t)
    (hs : WellFormed after s.pending) : WellFormed after t.pending := by
  induction h with
  | refl => exact hs
  | step hstep _ ih => exact ih (hs.settle_shift hstep)

/-- Whatever may follow a run completes a word that could follow before it. -/
theorem mem_words (h : Reaches limit s p t) {w : List Category} (hw : w ∈ t.words limit) :
    p ++ w ∈ s.words limit := by
  induction h with
  | refl => exact hw
  | step hs _ ih => exact mem_spelled_of_settle_shift hs (ih hw)

/-- If a word could follow before a run over its beginning, its rest may follow after it. -/
theorem mem_words_rest {after : CategorySet} (h : Reaches limit s p t)
    (hs : WellFormed after s.pending) {w : List Category} (hw : p ++ w ∈ s.words limit) :
    w ∈ t.words limit := by
  induction h with
  | refl => exact hw
  | step hstep _ ih =>
    obtain ⟨d, k, hstep', hw'⟩ :=
      settle_shift_of_mem_spelled hs (ne_eof_of_settle_shift hstep) hw
    obtain ⟨rfl, rfl⟩ := Verdict.shift.inj (hstep.symm.trans hstep')
    exact ih (hs.settle_shift hstep) hw'

/-- A run under a limit is a run under every larger one. -/
theorem mono (h : Reaches limit s p t) {limit' : ℕ} (hl : limit ≤ limit') :
    Reaches limit' s p t := by
  induction h with
  | refl s => exact .refl s
  | step hs _ ih =>
    refine .step ?_ ih
    rw [settle_mono hl (by simp [hs]), hs]

end Reaches

end Drac.Syntax
