import Drac.Syntax.Parser
import Mathlib.Data.Nat.Notation
import Mathlib.Logic.Relation

/-!
# How settling proceeds

Before a token is passed, what is pending changes by small moves: a level of nesting starts or ends, a
phrase takes the form that the token predicts, or the end of the input is matched.  The moves go on
until the symbol in front decides about the token, and settling is the verdict that they lead to.  So a
fact about settling is a fact about one move, carried along the moves, and a fact about the four ways to
decide.

## Main definitions

* `Stage` — pending symbols and the number of open levels.
* `Symbol.reads`, `Symbol.refusal?` — whether a symbol fits a token, and what is held against the token.
* `Move limit c s t`, `Unfolds limit c s t` — one move before the token `c`, and any number of them.
* `Decides limit c t v` — at the stage `t` the symbol in front decides about the token `c`.

## Main results

* `settle_eq_iff` — **settling is moving on until the verdict is clear.**
* `unfolds_of_settle_accept`, `exists_of_settle_shift`, `unfolds_of_settle_reject`,
  `exists_of_settle_expected`, `exists_of_settle_tooDeep` — where a verdict comes from.
* `settle_mono` — a larger limit changes no verdict but the one about nesting.
-/

namespace Drac.Syntax

open Category

/-! ### The symbol in front -/

namespace Symbol

/-- Whether a symbol asks for a token and this category will do. -/
def reads (c : Category) : Symbol → Bool
  | token a => a == c
  | oneOf s => s.contains c
  | phrase _ | enter | leave => false

/-- What would have fitted, if the symbol in front refuses the next token. -/
def refusal? (c : Category) : Symbol → Option Expected
  | token a => if a = c then none else some (.category a)
  | oneOf s => if s.contains c then none else some (.oneOf s)
  | phrase n =>
    match n.production.predict c with
    | .ok _ => none
    | .error s => some (.oneOf s)
  | enter | leave => none

theorem eq_of_reads {a : Symbol} {c : Category} (h : a.reads c = true) :
    a = .token c ∨ ∃ s, a = .oneOf s ∧ s.contains c = true := by
  cases a with
  | token a => exact .inl (congrArg token (by simpa [reads] using h))
  | oneOf s => exact .inr ⟨s, rfl, h⟩
  | phrase n => cases h
  | enter => cases h
  | leave => cases h

/-- A token is refused where another category is asked for, where no category of a set will do, and
where a phrase has no form for it. -/
theorem eq_of_refusal? {a : Symbol} {c : Category} {e : Expected} (h : a.refusal? c = some e) :
    (∃ b, a = .token b ∧ b ≠ c ∧ e = .category b) ∨
      (∃ s, a = .oneOf s ∧ s.contains c = false ∧ e = .oneOf s) ∨
      ∃ n s, a = .phrase n ∧ n.production.predict c = .error s ∧ e = .oneOf s := by
  cases a with
  | token b =>
    rw [refusal?] at h
    split at h
    · cases h
    · next hbc => exact .inl ⟨b, rfl, hbc, (Option.some.inj h).symm⟩
  | oneOf s =>
    rw [refusal?] at h
    split at h
    · cases h
    · next hs => exact .inr (.inl ⟨s, rfl, by simpa using hs, (Option.some.inj h).symm⟩)
  | phrase n =>
    rw [refusal?] at h
    split at h
    · cases h
    · next s hs => exact .inr (.inr ⟨n, s, rfl, hs, (Option.some.inj h).symm⟩)
  | enter => cases h
  | leave => cases h

end Symbol

/-! ### Stages and moves -/

/-- What must still follow, and the number of levels of nesting that are open. -/
structure Stage where
  /-- The number of open levels. -/
  depth : ℕ
  /-- What must still follow. -/
  pending : List Symbol

/-- The stage before a program. -/
def Stage.start : Stage := ⟨0, [.phrase .program]⟩

/-- One move before the token `c` is passed. -/
inductive Move (limit : ℕ) (c : Category) : Stage → Stage → Prop
  /-- A level of nesting starts. -/
  | enter {d : ℕ} {k : List Symbol} : d < limit → Move limit c ⟨d, .enter :: k⟩ ⟨d + 1, k⟩
  /-- A level of nesting ends. -/
  | leave {d : ℕ} {k : List Symbol} : Move limit c ⟨d, .leave :: k⟩ ⟨d - 1, k⟩
  /-- A phrase takes the form that the token predicts. -/
  | predict {d : ℕ} {n : Phrase} {k body : List Symbol} :
      n.production.predict c = .ok body → Move limit c ⟨d, .phrase n :: k⟩ ⟨d, body ++ k⟩
  /-- The end of the input is matched and not passed. -/
  | atEnd {d : ℕ} {a : Symbol} {k : List Symbol} :
      a.reads eof = true → c = eof → Move limit c ⟨d, a :: k⟩ ⟨d, k⟩

/-- Any number of moves before the token `c` is passed. -/
abbrev Unfolds (limit : ℕ) (c : Category) : Stage → Stage → Prop :=
  Relation.ReflTransGen (Move limit c)

/-- The symbol in front decides about the token `c`. -/
inductive Decides (limit : ℕ) (c : Category) : Stage → Verdict → Prop
  /-- Nothing is left. -/
  | accept {d : ℕ} : Decides limit c ⟨d, []⟩ (.accept d)
  /-- The token fits. -/
  | shift {d : ℕ} {a : Symbol} {k : List Symbol} :
      a.reads c = true → c ≠ eof → Decides limit c ⟨d, a :: k⟩ (.shift d k)
  /-- Something else would have fitted. -/
  | refuse {d : ℕ} {a : Symbol} {k : List Symbol} {e : Expected} :
      a.refusal? c = some e → Decides limit c ⟨d, a :: k⟩ (.reject (.expected e) d (a :: k))
  /-- A level would start at the limit. -/
  | tooDeep {d : ℕ} {k : List Symbol} :
      limit ≤ d → Decides limit c ⟨d, .enter :: k⟩ (.reject .tooDeep d (.enter :: k))

/-! ### Moves and verdicts -/

section

variable {limit : ℕ} {c : Category} {s t : Stage} {v : Verdict}

/-- A phrase is settled by the form that the token predicts. -/
theorem settle_phrase {d : ℕ} {n : Phrase} {k body : List Symbol}
    (h : n.production.predict c = .ok body) :
    settle limit c d (.phrase n :: k) = settle limit c d (body ++ k) := by
  rw [settle]
  split
  · next body' hbody' =>
    cases h.symm.trans hbody'
    rfl
  · next e he => cases h.symm.trans he

theorem settle_phrase_of_error {d : ℕ} {n : Phrase} {k : List Symbol} {e : CategorySet}
    (h : n.production.predict c = .error e) :
    settle limit c d (.phrase n :: k) = .reject (.expected (.oneOf e)) d (.phrase n :: k) := by
  rw [settle]
  split
  · next body hbody => cases h.symm.trans hbody
  · next e' he' =>
    cases h.symm.trans he'
    rfl

/-- A move leaves the verdict to come as it is. -/
theorem Move.settle_eq (h : Move limit c s t) :
    settle limit c s.depth s.pending = settle limit c t.depth t.pending := by
  cases h with
  | enter hd => rw [settle, if_neg (Nat.not_le.mpr hd)]
  | leave => rw [settle]
  | predict hbody => exact settle_phrase hbody
  | atEnd ha hc =>
    subst hc
    rcases Symbol.eq_of_reads ha with rfl | ⟨s, rfl, hs⟩
    · rw [settle, if_pos rfl, if_pos rfl]
    · rw [settle, if_pos hs, if_pos rfl]

/-- Where the symbol in front decides, its verdict is the one of settling. -/
theorem Decides.settle_eq (h : Decides limit c t v) : settle limit c t.depth t.pending = v := by
  cases h with
  | accept => rw [settle]
  | shift ha hc =>
    rcases Symbol.eq_of_reads ha with rfl | ⟨s, rfl, hs⟩
    · rw [settle, if_pos rfl, if_neg hc]
    · rw [settle, if_pos hs, if_neg hc]
  | refuse ha =>
    rcases Symbol.eq_of_refusal? ha with
      ⟨b, rfl, hbc, rfl⟩ | ⟨s, rfl, hs, rfl⟩ | ⟨n, s, rfl, hs, rfl⟩
    · rw [settle, if_neg hbc]
    · rw [settle, if_neg (by rw [hs]; exact Bool.false_ne_true)]
    · exact settle_phrase_of_error hs
  | tooDeep hd => rw [settle, if_pos hd]

theorem Unfolds.settle_eq (h : Unfolds limit c s t) :
    settle limit c s.depth s.pending = settle limit c t.depth t.pending := by
  induction h with
  | refl => rfl
  | tail _ hmove ih => exact ih.trans hmove.settle_eq

/-- From every stage the moves lead to one where the symbol in front decides. -/
theorem exists_unfolds (limit : ℕ) (c : Category) (d : ℕ) (k : List Symbol) :
    ∃ t, Unfolds limit c ⟨d, k⟩ t ∧ Decides limit c t (settle limit c d k) := by
  fun_induction settle limit c d k with
  | case1 d => exact ⟨⟨d, []⟩, .refl, .accept⟩
  | case2 d k hc ih =>
    obtain ⟨t, ht, hv⟩ := ih
    exact ⟨t, ht.head (.atEnd (by simp [Symbol.reads, hc]) hc), hv⟩
  | case3 d k hc => exact ⟨⟨d, .token c :: k⟩, .refl, .shift (by simp [Symbol.reads]) hc⟩
  | case4 d a k hac => exact ⟨⟨d, .token a :: k⟩, .refl, .refuse (by simp [Symbol.refusal?, hac])⟩
  | case5 d s k hs hc ih =>
    obtain ⟨t, ht, hv⟩ := ih
    exact ⟨t, ht.head (.atEnd (hc ▸ hs) hc), hv⟩
  | case6 d s k hs hc => exact ⟨⟨d, .oneOf s :: k⟩, .refl, .shift hs hc⟩
  | case7 d s k hs => exact ⟨⟨d, .oneOf s :: k⟩, .refl, .refuse (by simp [Symbol.refusal?, hs])⟩
  | case8 d k hd => exact ⟨⟨d, .enter :: k⟩, .refl, .tooDeep hd⟩
  | case9 d k hd ih =>
    obtain ⟨t, ht, hv⟩ := ih
    exact ⟨t, ht.head (.enter (Nat.not_le.mp hd)), hv⟩
  | case10 d k ih =>
    obtain ⟨t, ht, hv⟩ := ih
    exact ⟨t, ht.head .leave, hv⟩
  | case11 d n k body hbody ih =>
    obtain ⟨t, ht, hv⟩ := ih
    exact ⟨t, ht.head (.predict hbody), hv⟩
  | case12 d n k s hs =>
    exact ⟨⟨d, .phrase n :: k⟩, .refl, .refuse (by simp [Symbol.refusal?, hs])⟩

/-- **Settling is moving on until the verdict is clear.** -/
theorem settle_eq_iff : settle limit c s.depth s.pending = v ↔
    ∃ t, Unfolds limit c s t ∧ Decides limit c t v := by
  constructor
  · rintro rfl
    exact exists_unfolds limit c s.depth s.pending
  · rintro ⟨t, ht, hv⟩
    exact ht.settle_eq.trans hv.settle_eq

end

section

variable {limit depth d : ℕ} {c : Category} {pending k : List Symbol}

/-- Settling is over well where the moves have used up what is pending. -/
theorem unfolds_of_settle_accept (h : settle limit c depth pending = .accept d) :
    Unfolds limit c ⟨depth, pending⟩ ⟨d, []⟩ := by
  obtain ⟨t, ht, hdecides⟩ := exists_unfolds limit c depth pending
  rw [h] at hdecides
  cases hdecides with
  | accept => exact ht

/-- A token is passed where the moves lead to a symbol that it fits. -/
theorem exists_of_settle_shift (h : settle limit c depth pending = .shift d k) :
    ∃ a, Unfolds limit c ⟨depth, pending⟩ ⟨d, a :: k⟩ ∧ a.reads c = true ∧ c ≠ eof := by
  obtain ⟨t, ht, hdecides⟩ := exists_unfolds limit c depth pending
  rw [h] at hdecides
  cases hdecides with
  | @shift _ a _ ha hc => exact ⟨a, ht, ha, hc⟩

/-- The stage that a refusal tells of is the one that the moves lead to. -/
theorem unfolds_of_settle_reject {cause : Refusal}
    (h : settle limit c depth pending = .reject cause d k) :
    Unfolds limit c ⟨depth, pending⟩ ⟨d, k⟩ := by
  obtain ⟨t, ht, hdecides⟩ := exists_unfolds limit c depth pending
  rw [h] at hdecides
  cases hdecides with
  | refuse | tooDeep => exact ht

/-- The limit is in the way where the moves lead to a level that would start at it. -/
theorem exists_of_settle_tooDeep (h : settle limit c depth pending = .reject .tooDeep d k) :
    ∃ k', Unfolds limit c ⟨depth, pending⟩ ⟨d, .enter :: k'⟩ ∧ limit ≤ d := by
  obtain ⟨t, ht, hdecides⟩ := exists_unfolds limit c depth pending
  rw [h] at hdecides
  cases hdecides with
  | tooDeep hd => exact ⟨_, ht, hd⟩

/-- A token is refused where the moves lead to a symbol that refuses it. -/
theorem exists_of_settle_expected {e : Expected}
    (h : settle limit c depth pending = .reject (.expected e) d k) :
    ∃ a k', Unfolds limit c ⟨depth, pending⟩ ⟨d, a :: k'⟩ ∧ a.refusal? c = some e := by
  obtain ⟨t, ht, hdecides⟩ := exists_unfolds limit c depth pending
  rw [h] at hdecides
  cases hdecides with
  | @refuse _ a k _ ha => exact ⟨a, k, ht, ha⟩

end

/-! ### The limit -/

section

variable {limit limit' : ℕ} {c : Category} {s t : Stage} {v : Verdict}

/-- No move opens a level at the limit. -/
theorem Unfolds.depth_le (h : Unfolds limit c s t) (hs : s.depth ≤ limit) : t.depth ≤ limit := by
  induction h with
  | refl => exact hs
  | tail _ hmove ih =>
    cases hmove with
    | enter hd => exact hd
    | leave => exact Nat.le_trans (Nat.sub_le ..) ih
    | predict _ => exact ih
    | atEnd _ _ => exact ih

theorem Move.mono (h : Move limit c s t) (hl : limit ≤ limit') : Move limit' c s t := by
  cases h with
  | enter hd => exact .enter (Nat.lt_of_lt_of_le hd hl)
  | leave => exact .leave
  | predict hbody => exact .predict hbody
  | atEnd ha hc => exact .atEnd ha hc

theorem Unfolds.mono (h : Unfolds limit c s t) (hl : limit ≤ limit') : Unfolds limit' c s t :=
  Relation.ReflTransGen.mono (fun _ _ hmove => hmove.mono hl) _ _ h

theorem Decides.mono (h : Decides limit c t v) (hv : ∀ d k, v ≠ .reject .tooDeep d k) :
    Decides limit' c t v := by
  cases h with
  | accept => exact .accept
  | shift ha hc => exact .shift ha hc
  | refuse ha => exact .refuse ha
  | tooDeep => exact absurd rfl (hv _ _)

/-- A larger limit changes no verdict, unless the limit itself was what stood in the way. -/
theorem settle_mono {depth : ℕ} {pending : List Symbol} (hl : limit ≤ limit')
    (h : ∀ d k, settle limit c depth pending ≠ .reject .tooDeep d k) :
    settle limit' c depth pending = settle limit c depth pending := by
  obtain ⟨t, ht, hv⟩ := exists_unfolds limit c depth pending
  exact (@settle_eq_iff limit' c ⟨depth, pending⟩ _).mpr ⟨t, ht.mono hl, hv.mono h⟩

end

end Drac.Syntax
