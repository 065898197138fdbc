import Drac.Proofs.Runs
import Mathlib.Data.List.Infix

/-!
# Programs one after the other

Behind a program the recognizer is back where it was at the start: no level of nesting is open, and what
may follow is any number of definitions.  So a word behind a program is recognized as it is alone.

That the recognizer is back there is not seen from what the program was but from what can be pending.
Definitions are pending below everything else, and what is above them ends in a symbol that cannot be
passed at the end of the input.  The levels that are open are those that the pending symbols close.

## Main definitions

* `Symbol.solid` — symbols that no end of the input passes.
* `AtDefinitions` — pending symbols with the definitions of a program below them.
* `Nested d pending` — the pending symbols close `d` levels.
* `apart a b pending` — the pending symbols never let `b` follow `a` immediately.

## Main results

* `Reaches.settle_of_accept` — behind a program everything is as at the start.
* `Stops.append` — **behind a program a run goes as it goes alone.**
* `Stops.not_openParen_mul` — in no program is an opening bracket followed by a star.
-/

namespace Drac.Syntax

open Category

/-! ### Symbols that must be passed -/

/-- Whether a symbol is a token, or a phrase that ends in one, and not the end of the input. -/
def Symbol.solid : Symbol → Bool
  | token c => c != eof
  | phrase .definition | phrase .variableDefinition | phrase .functionDefinition => true
  | _ => false

theorem Phrase.solid_of_mem_bodies {n : Phrase} {body : List Symbol}
    (h : body ∈ n.production.bodies) (hn : (Symbol.phrase n).solid = true) :
    ∃ b s, body = b ++ [s] ∧ s.solid = true := by
  have key : ∀ b ∈ n.production.bodies, (Symbol.phrase n).solid = true →
      b.getLast?.any Symbol.solid = true := by
    cases n <;> decide
  obtain ⟨s, hlast, hs⟩ := (Option.any_eq_true ..).mp (key body h hn)
  obtain ⟨b, rfl⟩ := List.getLast?_eq_some_iff.mp hlast
  exact ⟨b, s, rfl, hs⟩

/-- A move before the end of the input leaves a solid symbol pending. -/
theorem Move.exists_solid {limit : ℕ} {t u : Stage} (h : Move limit eof t u)
    (ht : ∃ s ∈ t.pending, s.solid = true) : ∃ s ∈ u.pending, s.solid = true := by
  have htail {a : Symbol} {k : List Symbol} (ha : a.solid = false)
      (hs : ∃ s ∈ a :: k, s.solid = true) : ∃ s ∈ k, s.solid = true := by
    simpa [ha] using hs
  cases h with
  | enter _ => exact htail rfl ht
  | leave => exact htail rfl ht
  | @predict _ n k body hbody =>
    -- the solid symbol is in the form, or it stands behind the phrase
    by_cases hn : (Symbol.phrase n).solid = true
    · obtain ⟨b, s, rfl, hs⟩ :=
        Phrase.solid_of_mem_bodies (Production.mem_bodies_of_predict hbody) hn
      exact ⟨s, by simp, hs⟩
    · obtain ⟨s, hmem, hs⟩ := htail (by simpa using hn) ht
      exact ⟨s, List.mem_append_right _ hmem, hs⟩
  | atEnd ha _ =>
    rcases Symbol.eq_of_reads ha with rfl | ⟨s, rfl, -⟩
    · exact htail rfl ht
    · exact htail rfl ht

/-- The input cannot end while a solid symbol is pending. -/
theorem settle_eof_ne_accept {limit depth d : ℕ} {pending : List Symbol} {s : Symbol}
    (hs : s ∈ pending) (hsolid : s.solid = true) : settle limit eof depth pending ≠ .accept d := by
  intro h
  have hkept {t : Stage} (hu : Unfolds limit eof ⟨depth, pending⟩ t) :
      ∃ s ∈ t.pending, s.solid = true := by
    induction hu with
    | refl => exact ⟨s, hs, hsolid⟩
    | tail _ hmove ih => exact hmove.exists_solid ih
  obtain ⟨s, hs, -⟩ := hkept (unfolds_of_settle_accept h)
  cases hs

/-! ### The definitions of a program -/

/-- Any number of definitions is pending below everything else, and what is above them ends in a solid
symbol. -/
def AtDefinitions (pending : List Symbol) : Prop :=
  ∃ above, pending = above ++ [.phrase .definitions, .token eof] ∧
    ∀ s ∈ above.getLast?, s.solid = true

/-- At the start of a program the definitions are what is pending. -/
theorem settle_program (limit : ℕ) (c : Category) (depth : ℕ) :
    settle limit c depth [.phrase .program] =
      settle limit c depth [.phrase .definitions, .token eof] := by
  rw [settle]
  rfl

namespace AtDefinitions

theorem tail {s : Symbol} {k : List Symbol} (h : AtDefinitions (s :: k))
    (hs : s ≠ .phrase .definitions) : AtDefinitions k := by
  obtain ⟨above, heq, hlast⟩ := h
  cases above with
  | nil => exact absurd (List.cons.inj heq).1 hs
  | cons a above =>
    obtain ⟨-, rfl⟩ := List.cons.inj heq
    refine ⟨above, rfl, fun t ht => hlast t ?_⟩
    obtain ⟨b, rfl⟩ := List.getLast?_eq_some_iff.mp ht
    exact List.getLast?_eq_some_iff.mpr ⟨a :: b, rfl⟩

/-- A form in the place of a phrase leaves the definitions where they are, unless no definition is to
follow any more. -/
theorem body_append {n : Phrase} {body k : List Symbol} (h : AtDefinitions (.phrase n :: k))
    (hbody : body ∈ n.production.bodies) : AtDefinitions (body ++ k) ∨ body ++ k = [.token eof] := by
  obtain ⟨above, heq, hlast⟩ := h
  cases above with
  | nil =>
    -- the phrase is the definitions themselves
    cases heq
    have hform : body = [.phrase .definition, .phrase .definitions] ∨ body = [] := by
      simpa [Phrase.production, Production.optional, Production.bodies] using hbody
    rcases hform with rfl | rfl
    · exact .inl ⟨[.phrase .definition], rfl, by decide⟩
    · exact .inr rfl
  | cons a above =>
    obtain ⟨rfl, rfl⟩ := List.cons.inj heq
    refine .inl ⟨body ++ above, (List.append_assoc ..).symm, ?_⟩
    cases above with
    | nil =>
      obtain ⟨b, s, rfl, hs⟩ := Phrase.solid_of_mem_bodies hbody (hlast _ rfl)
      simpa using hs
    | cons b above =>
      rw [List.getLast?_append_of_ne_nil _ (List.cons_ne_nil b above)]
      exact hlast

/-- A move before a token leaves the definitions where they are, unless no definition is to follow any
more. -/
theorem move {limit : ℕ} {c : Category} {t u : Stage} (h : Move limit c t u) (hc : c ≠ eof)
    (ht : AtDefinitions t.pending) : AtDefinitions u.pending ∨ u.pending = [.token eof] := by
  cases h with
  | enter _ => exact .inl (ht.tail Symbol.noConfusion)
  | leave => exact .inl (ht.tail Symbol.noConfusion)
  | predict hbody => exact ht.body_append (Production.mem_bodies_of_predict hbody)
  | atEnd _ heof => exact absurd heof hc

/-- A token that is passed leaves the definitions where they are. -/
theorem settle_shift {limit depth d : ℕ} {c : Category} {pending k : List Symbol}
    (hp : AtDefinitions pending) (h : settle limit c depth pending = .shift d k) :
    AtDefinitions k := by
  obtain ⟨a, hu, ha, hne⟩ := exists_of_settle_shift h
  have hkept {t : Stage} (hu : Unfolds limit c ⟨depth, pending⟩ t) :
      AtDefinitions t.pending ∨ t.pending = [.token eof] := by
    induction hu with
    | refl => exact .inl hp
    | tail _ hmove ih =>
      rcases ih with ht | hend
      · exact ht.move hmove hne
      · -- the end of the input is the only move left
        cases hmove with
        | enter | leave | predict => cases hend
        | atEnd _ heof => exact absurd heof hne
  rcases hkept hu with hfront | hend
  · refine hfront.tail ?_
    rintro rfl
    cases ha
  · -- without definitions no token would have been passed
    cases hend
    exact absurd (by simpa [Symbol.reads] using ha) hne.symm

end AtDefinitions

/-- After a token of a program the definitions are pending below everything else. -/
theorem Reaches.atDefinitions {limit : ℕ} {t : Stage} {p : List Category}
    (h : Reaches limit .start p t) : t = .start ∨ AtDefinitions t.pending := by
  have hrun {s t : Stage} {p : List Category} (h : Reaches limit s p t)
      (hs : AtDefinitions s.pending) : AtDefinitions t.pending := by
    induction h with
    | refl => exact hs
    | step hstep _ ih => exact ih (hs.settle_shift hstep)
  cases h with
  | refl => exact .inl rfl
  | step hstep hrest =>
    have hstart : AtDefinitions [.phrase .definitions, .token eof] := ⟨[], rfl, by simp⟩
    rw [Stage.start, settle_program] at hstep
    exact .inr (hrun hrest (hstart.settle_shift hstep))

/-! ### Open levels -/

/-- The pending symbols close `d` levels, and no level that is not open. -/
def Nested : ℕ → List Symbol → Prop
  | d, [] => d = 0
  | d, .enter :: k => Nested (d + 1) k
  | d, .leave :: k => 0 < d ∧ Nested (d - 1) k
  | d, .token _ :: k => Nested d k
  | d, .oneOf _ :: k => Nested d k
  | d, .phrase _ :: k => Nested d k

/-- A form closes the levels that it opens. -/
theorem Nested.body_append {n : Phrase} {body : List Symbol} (hbody : body ∈ n.production.bodies)
    {d : ℕ} {k : List Symbol} (h : Nested d k) : Nested d (body ++ k) := by
  revert body
  cases n <;> simp [Phrase.production, Production.always, Production.optional, Production.bodies, Nested, h]

/-- The levels that are open are those that are closed later. -/
theorem invariant_nested : Invariant Nested where
  token h := h
  oneOf h := h
  enter h := h
  leave h := h.2
  phrase hbody h := Nested.body_append hbody h

/-- The levels above a given number of them are closed again. -/
theorem invariant_nested_above (base : ℕ) : Invariant fun d k => base ≤ d ∧ Nested (d - base) k where
  token h := h
  oneOf h := h
  enter h := by
    refine ⟨Nat.le_succ_of_le h.1, ?_⟩
    rw [Nat.sub_add_comm h.1]
    exact h.2
  leave := by
    rintro d k ⟨hle, hpos, hk⟩
    refine ⟨by omega, ?_⟩
    rw [Nat.sub_right_comm]
    exact hk
  phrase hbody h := ⟨h.1, Nested.body_append hbody h.2⟩

/-- What closes some levels, and what closes further levels behind it, close all of them. -/
theorem Nested.append {d e : ℕ} {a k : List Symbol} (ha : Nested d a) (hk : Nested e k) :
    Nested (d + e) (a ++ k) := by
  induction a generalizing d with
  | nil =>
    obtain rfl : d = 0 := ha
    rwa [Nat.zero_add]
  | cons s a ih =>
    cases s with
    | token | oneOf | phrase => exact ih ha
    | enter =>
      have hrest : Nested (d + 1 + e) (a ++ k) := ih ha
      rwa [Nat.add_right_comm] at hrest
    | leave =>
      obtain ⟨hpos, hrest⟩ := ha
      refine ⟨Nat.add_pos_left hpos e, ?_⟩
      rw [Nat.sub_add_comm hpos]
      exact ih hrest

/-- If the pending symbols are given up, just the levels that they close end. -/
theorem Nested.closes_eq {d : ℕ} {k : List Symbol} (h : Nested d k) : Symbol.closes k = d := by
  induction k generalizing d with
  | nil => exact h.symm
  | cons s k ih =>
    cases s with
    | token | oneOf | phrase => exact ih h
    | enter => rw [Symbol.closes, ih h, Nat.add_sub_cancel]
    | leave =>
      obtain ⟨hpos, hk⟩ := h
      rw [Symbol.closes, ih hk, Nat.sub_add_cancel hpos]

/-! ### Behind a program -/

/-- Behind a program everything is as at the start. -/
theorem Reaches.settle_of_accept {limit d : ℕ} {t : Stage} {p : List Category}
    (h : Reaches limit .start p t) (ha : settle limit eof t.depth t.pending = .accept d)
    (c : Category) :
    settle limit c t.depth t.pending = settle limit c Stage.start.depth Stage.start.pending := by
  have hnested : Nested t.depth t.pending := invariant_nested.reaches h (by rfl)
  rcases h.atDefinitions with rfl | ⟨above, hpending, hlast⟩
  · rfl
  · -- what is above the definitions would end in a symbol that must be passed
    have habove : above = [] := by
      rcases List.eq_nil_or_concat above with hnil | ⟨b, s, hb⟩
      · exact hnil
      · rw [List.concat_eq_append] at hb
        have hsolid : s.solid = true := hlast s (by simp [hb])
        exact absurd ha (settle_eof_ne_accept (by simp [hpending, hb]) hsolid)
    rw [habove, List.nil_append] at hpending
    rw [hpending] at hnested ⊢
    have hdepth : t.depth = 0 := hnested
    rw [hdepth, Stage.start, settle_program]

/-- **Behind a program a run goes as it goes alone.** -/
theorem Stops.append {limit k : ℕ} {w v : List Category} {j : Judgement}
    (hw : Stops limit w w.length (.ok ())) (hv : Stops limit v k j) :
    Stops limit (w ++ v) (w.length + k) j := by
  obtain ⟨t, ht, hj⟩ := hw.judged
  rw [List.take_length] at ht
  rw [List.getElem?_eq_none (Nat.le_refl _), Option.getD_none] at hj
  obtain ⟨d, ha⟩ := Verdict.exists_eq_accept_of_judgement? hj
  have hsame := ht.settle_of_accept ha
  obtain ⟨u, hu, hjudged⟩ := hv.judged
  have htake : (w ++ v).take (w.length + k) = w ++ v.take k := List.take_length_add_append k
  have hnext : (w ++ v)[w.length + k]? = v[k]? := by
    rw [List.getElem?_append_right (Nat.le_add_right ..), Nat.add_sub_cancel_left]
  refine ⟨by rw [List.length_append]; exact Nat.add_le_add_left hv.le_length _, ?_⟩
  rw [htake, hnext]
  -- only the first step is taken from another stage
  generalize v.take k = p at hu
  cases hu with
  | refl =>
    refine ⟨t, by rwa [List.append_nil], ?_⟩
    rw [hsame]
    exact hjudged
  | step hstep hrest =>
    rw [← hsame] at hstep
    exact ⟨u, ht.append (.step hstep hrest), hjudged⟩

/-! ### Tokens that never stand side by side -/

/-- Whether the pending symbols never let `b` follow `a` immediately, whatever follows them. -/
def apart (a b : Category) : List Symbol → Bool
  | [] => true
  | .token c :: k => (c != a || !(startOf (.ofList Category.all) k).contains b) && apart a b k
  | .oneOf s :: k => !s.contains a && apart a b k
  | .phrase _ :: k => apart a b k
  | .enter :: k => apart a b k
  | .leave :: k => apart a b k

theorem apart_append {a b : Category} {body k : List Symbol} (hbody : apart a b body = true)
    (hk : apart a b k = true) : apart a b (body ++ k) = true := by
  induction body with
  | nil => exact hk
  | cons s body ih =>
    cases s with
    | token c =>
      have hmono : startOf (.ofList Category.all) (body ++ k) ⊆
          startOf (.ofList Category.all) body := by
        rw [startOf_append]
        exact startOf_mono (fun c _ => CategorySet.mem_ofList.mpr (Category.mem_all c)) body
      simp only [List.cons_append, apart, Bool.and_eq_true, Bool.or_eq_true, Bool.not_eq_true']
        at hbody ⊢
      refine ⟨hbody.1.imp_right fun hb => ?_, ih hbody.2⟩
      by_contra hnot
      rw [hmono b (by simpa using hnot)] at hb
      cases hb
    | oneOf s =>
      rw [apart, Bool.and_eq_true] at hbody
      rw [List.cons_append, apart, hbody.1, ih hbody.2]
      rfl
    | phrase n => exact ih hbody
    | enter => exact ih hbody
    | leave => exact ih hbody

/-- If no form lets `b` follow `a`, the pending symbols never do. -/
theorem invariant_apart {a b : Category}
    (h : ∀ n : Phrase, ∀ body ∈ n.production.bodies, apart a b body = true) :
    Invariant fun _ k => apart a b k = true where
  token hk := (Bool.and_eq_true_iff.mp hk).2
  oneOf hk := (Bool.and_eq_true_iff.mp hk).2
  enter hk := hk
  leave hk := hk
  phrase hbody hk := apart_append (h _ _ hbody) hk

/-- Behind the token `a` nothing is pending that starts with `b`. -/
theorem startOf_of_settle_shift {a b : Category}
    (h : ∀ n : Phrase, ∀ body ∈ n.production.bodies, apart a b body = true) {limit depth d : ℕ}
    {pending k : List Symbol} (hp : apart a b pending = true)
    (hs : settle limit a depth pending = .shift d k) :
    (startOf (.ofList Category.all) k).contains b = false := by
  obtain ⟨s, hu, hreads, -⟩ := exists_of_settle_shift hs
  have hfront : apart a b (s :: k) = true := (invariant_apart h).unfolds hu hp
  rcases Symbol.eq_of_reads hreads with rfl | ⟨set, rfl, hset⟩
  · simpa using (Bool.and_eq_true_iff.mp hfront).1
  · have hnot := (Bool.and_eq_true_iff.mp hfront).1
    rw [hset] at hnot
    cases hnot

/-- No form lets a star follow an opening bracket. -/
theorem apart_openParen_mul :
    ∀ n : Phrase, ∀ body ∈ n.production.bodies, apart openParen mul body = true := by
  intro n
  cases n <;> decide

/-- In no program is an opening bracket followed by a star. -/
theorem Stops.not_openParen_mul {limit k : ℕ} {w : List Category} (h : Stops limit w k (.ok ()))
    (hw : eof ∉ w) : ¬ [openParen, mul] <:+: w := by
  rintro ⟨p, q, heq⟩
  obtain ⟨hk, -⟩ := h.sentence_of_ok hw
  obtain ⟨t, ht, hj⟩ := h.judged
  obtain ⟨d, ha⟩ := Verdict.exists_eq_accept_of_judgement? hj
  obtain ⟨v, hv, -⟩ := exists_mem_spelled_of_settle_accept ha
  rw [hk, List.take_length, ← heq, List.append_assoc, reaches_append_iff] at ht
  obtain ⟨s, hs, hrest⟩ := ht
  have hp : apart openParen mul s.pending = true :=
    (invariant_apart apart_openParen_mul).reaches hs (by decide)
  cases hrest with
  | step hopen hrest =>
    -- the star would be the start of what is pending behind the bracket
    have hnot := startOf_of_settle_shift apart_openParen_mul hp hopen
    have hmem := hrest.mem_words hv
    have hstar := (start_of_mem_spelled hmem (.ofList Category.all)).2 mul _ rfl
    rw [hnot] at hstar
    cases hstar

end Drac.Syntax
