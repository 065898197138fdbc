import Drac.Proofs.Recognition
import Mathlib.Data.Nat.Notation
import Mathlib.Logic.Relation

/-!
# The recognizer makes progress

Between two tokens the recognizer moves on by what is pending alone, and it could do so for ever if a phrase
came back before a token has been passed.  It cannot: as long as no token is passed, what has taken the place
of a phrase weighs less than the phrase, and a phrase weighs at least its rank.  The end of the input is
matched without being passed, and weighs something too.  So every round of a repetition, and every expression
or block within another one, costs a token, and the limit of nesting has no part in this.

## Main definitions

* `Config`, `Step limit x y` — what the recognizer has in hand, and one move or one passed token.
* `StepAbove limit k x y` — a step after which more than `k` is pending.
* `Advances` — tokens have been passed or, over the same token, a weight has become less.
* `Phrase.Repeats` — a phrase that stands for any number of rounds.

## Main results

* `Step.advances`, `StepsAbove.advances` — what one step does, and what any number of steps do.
* `wellFounded_step`, `Step.unique` — steps do not go on for ever, and leave no choice.
* `Parser.exists_steps_run` — the recognizer ends where the steps end.
* `Phrase.repeats_iff` — the repetitions of the grammar.
* `Parser.program_progress` — **no phrase comes back without a token being passed.**
-/

namespace Drac.Syntax

open Category

/-! ### Configurations and steps -/

/-- What the recognizer has in hand: a place in its tokens, and what is pending. -/
structure Config (σ : Type) where
  /-- The place in the tokens. -/
  cursor : Cursor σ
  /-- What is pending. -/
  stage : Stage

variable {σ : Type} [TokenSource σ]

/-- What the recognizer starts with. -/
def Config.start (s : σ) : Config σ := ⟨Cursor.start s, Stage.start⟩

/-- One step of the recognizer. -/
inductive Step (limit : ℕ) : Config σ → Config σ → Prop
  /-- A move before the token is passed. -/
  | move {c : Cursor σ} {s t : Stage} : Move limit c.category s t → Step limit ⟨c, s⟩ ⟨c, t⟩
  /-- The token is passed; it is not the end of the input. -/
  | pass {c : Cursor σ} {d : ℕ} {a : Symbol} {k : List Symbol} :
      a.reads c.category = true → c.category ≠ eof →
        Step limit ⟨c, ⟨d, a :: k⟩⟩ ⟨c.advance, ⟨d, k⟩⟩

/-- Any number of steps. -/
abbrev Steps (limit : ℕ) : Config σ → Config σ → Prop := Relation.ReflTransGen (Step limit)

/-- A step after which more than `k` is pending, so that `k` itself stays untouched. -/
def StepAbove (limit : ℕ) (k : List Symbol) (x y : Config σ) : Prop :=
  Step limit x y ∧ k.length < y.stage.pending.length

/-- One step or more, with more than `k` pending all the time. -/
abbrev StepsAbove (limit : ℕ) (k : List Symbol) : Config σ → Config σ → Prop :=
  Relation.TransGen (StepAbove limit k)

/-! ### What a step does -/

/-- From a place and a weight to a later place and another weight: tokens have been passed or, over the same
token, the weight has become less. -/
inductive Advances : Cursor σ → ℕ → Cursor σ → ℕ → Prop
  | settle {c : Cursor σ} {w w' : ℕ} : w' < w → Advances c w c w'
  | pass {c c' : Cursor σ} {w w' : ℕ} :
      c'.remaining < c.remaining → c.consumed < c'.consumed → Advances c w c' w'

namespace Advances

variable {c c' c'' : Cursor σ} {w w' w'' : ℕ}

theorem trans (h : Advances c w c' w') (h' : Advances c' w' c'' w'') : Advances c w c'' w'' := by
  cases h with
  | settle hw =>
    cases h' with
    | settle hw' => exact .settle (hw'.trans hw)
    | pass hr hc => exact .pass hr hc
  | pass hr hc =>
    cases h' with
    | settle _ => exact .pass hr hc
    | pass hr' hc' => exact .pass (hr'.trans hr) (hc.trans hc')

/-- A weight can only be overestimated. -/
theorem of_le (h : Advances c w c' w') (hle : w'' ≤ w') : Advances c w c' w'' := by
  cases h with
  | settle hw => exact .settle (Nat.lt_of_le_of_lt hle hw)
  | pass hr hc => exact .pass hr hc

/-- The tokens that are left count first, and then the weight. -/
theorem lex (h : Advances c w c' w') :
    Prod.Lex (· < ·) (· < ·) (c'.remaining, w') (c.remaining, w) := by
  cases h with
  | settle hw => exact .right _ hw
  | pass hr _ => exact .left _ _ hr

/-- If the weight is the same again, a token has been passed. -/
theorem consumed_lt (h : Advances c w c' w) : c.consumed < c'.consumed := by
  cases h with
  | settle hw => exact absurd hw (Nat.lt_irrefl w)
  | pass _ hc => exact hc

end Advances

section

variable {limit d : ℕ} {x y z : Config σ} {a : Symbol} {b k : List Symbol}

theorem Symbol.refusal?_eq_none_of_reads {c : Category} (h : a.reads c = true) :
    a.refusal? c = none := by
  rcases Symbol.eq_of_reads h with rfl | ⟨s, rfl, hs⟩
  · rw [refusal?, if_pos rfl]
  · rw [refusal?, if_pos hs]

theorem Symbol.weight_lt_of_reads (h : a.reads eof = true) (b : List Symbol) :
    weight b < weight (a :: b) := by
  have hweight : weight (a :: b) = 1 + weight b := by
    rcases Symbol.eq_of_reads h with rfl | ⟨s, rfl, hs⟩
    · rfl
    · simp [weight, rank, passable, hs]
  rw [hweight]
  exact Nat.lt_add_of_pos_left Nat.one_pos

/-- A move replaces the symbol in front by something that weighs less. -/
theorem Move.exists_append {c : Category} {s t : Stage} (h : Move limit c s t)
    (hs : s.pending = a :: b ++ k) :
    ∃ b', t.pending = b' ++ k ∧ Symbol.weight b' < Symbol.weight (a :: b) := by
  cases h with
  | enter hd =>
    cases hs
    exact ⟨b, rfl, Nat.lt_add_of_pos_left Nat.one_pos⟩
  | leave =>
    cases hs
    exact ⟨b, rfl, Nat.lt_add_of_pos_left Nat.one_pos⟩
  | predict hbody =>
    cases hs
    exact ⟨_ ++ b, (List.append_assoc ..).symm, Phrase.weight_predict_lt hbody b⟩
  | atEnd ha hc =>
    cases hs
    exact ⟨b, rfl, Symbol.weight_lt_of_reads ha b⟩

theorem Cursor.advances_advance {c : Cursor σ} (h : c.category ≠ eof) (w w' : ℕ) :
    Advances c w c.advance w' := by
  have hne : c.current.isEof = false := by
    rw [← Bool.not_eq_true, Token.isEof_iff]
    exact h
  refine .pass (Cursor.remaining_advance_lt hne) ?_
  rw [Cursor.consumed_advance hne]
  exact Nat.lt_succ_self _

/-- What a step does: it leaves untouched what stands behind the symbol in front. -/
theorem Step.advances (h : Step limit x y) (hx : x.stage.pending = a :: b ++ k) :
    ∃ b', y.stage.pending = b' ++ k ∧
      Advances x.cursor (Symbol.weight (a :: b)) y.cursor (Symbol.weight b') := by
  cases h with
  | move hmove =>
    obtain ⟨b', hb', hweight⟩ := hmove.exists_append hx
    exact ⟨b', hb', .settle hweight⟩
  | pass ha hc =>
    cases hx
    exact ⟨b, rfl, Cursor.advances_advance hc _ _⟩

/-- A step above `k` leaves something in front of `k`. -/
theorem StepAbove.advances (h : StepAbove limit k x y) (hx : x.stage.pending = a :: b ++ k) :
    ∃ a' b', y.stage.pending = a' :: b' ++ k ∧
      Advances x.cursor (Symbol.weight (a :: b)) y.cursor (Symbol.weight (a' :: b')) := by
  obtain ⟨hstep, hlength⟩ := h
  obtain ⟨b', hy, hadvances⟩ := hstep.advances hx
  cases b' with
  | nil =>
    rw [hy] at hlength
    exact absurd hlength (Nat.lt_irrefl _)
  | cons a' b' => exact ⟨a', b', hy, hadvances⟩

/-- What any number of steps do, as long as `k` stays untouched. -/
theorem StepsAbove.advances (h : StepsAbove limit k x y) (hx : x.stage.pending = a :: b ++ k) :
    ∃ a' b', y.stage.pending = a' :: b' ++ k ∧
      Advances x.cursor (Symbol.weight (a :: b)) y.cursor (Symbol.weight (a' :: b')) := by
  induction h with
  | single h => exact h.advances hx
  | tail _ h ih =>
    obtain ⟨a', b', hy, hbefore⟩ := ih
    obtain ⟨a'', b'', hz, hlast⟩ := h.advances hy
    exact ⟨a'', b'', hz, hbefore.trans hlast⟩

/-- Between two phrases of which the second is a part of the first, tokens are passed or the rank becomes
less. -/
theorem StepsAbove.advances_rank {n p : Phrase} {m : List Symbol} (h : StepsAbove limit k x y)
    (hx : x.stage.pending = .phrase n :: k) (hy : y.stage.pending = .phrase p :: m) :
    Advances x.cursor n.rank y.cursor p.rank := by
  obtain ⟨a, b, hy', hadvances⟩ := h.advances (b := []) hx
  cases hy.symm.trans hy'
  have hn : Symbol.weight [.phrase n] = n.rank := by simp [Symbol.weight, Symbol.rank]
  rw [hn] at hadvances
  exact hadvances.of_le (Nat.le_add_right ..)

/-! ### Steps end -/

/-- What becomes less with every step: the tokens that are left, and then the weight of what is pending.  The
limit of nesting does not occur in it. -/
def Config.measure (x : Config σ) : ℕ × ℕ := (x.cursor.remaining, Symbol.weight x.stage.pending)

theorem Step.measure_lt (h : Step limit x y) :
    Prod.Lex (· < ·) (· < ·) y.measure x.measure := by
  cases hx : x.stage.pending with
  | nil =>
    -- where nothing is pending there is no step
    cases h with
    | move hmove =>
      cases hmove <;> cases hx
    | pass => cases hx
  | cons a b =>
    obtain ⟨b', hy, hadvances⟩ := h.advances (k := []) (by rw [hx, List.append_nil])
    rw [Config.measure, Config.measure, hx, hy, List.append_nil]
    exact hadvances.lex

/-- Steps do not go on for ever, whatever the limit is. -/
theorem wellFounded_step (limit : ℕ) : WellFounded fun y x : Config σ => Step limit x y :=
  Subrelation.wf (fun h => h.measure_lt)
    (InvImage.wf Config.measure (Prod.lex ⟨_, Nat.lt_wfRel.wf⟩ ⟨_, Nat.lt_wfRel.wf⟩).wf)

theorem Move.unique {c : Category} {s t u : Stage} (h : Move limit c s t) (h' : Move limit c s u) :
    t = u := by
  cases h with
  | enter hd =>
    cases h' with
    | enter _ => rfl
    | atEnd ha _ => cases ha
  | leave =>
    cases h' with
    | leave => rfl
    | atEnd ha _ => cases ha
  | predict hbody =>
    cases h' with
    | predict hbody' =>
      cases hbody.symm.trans hbody'
      rfl
    | atEnd ha _ => cases ha
  | atEnd ha hc =>
    cases h' with
    | enter _ => cases ha
    | leave => cases ha
    | predict _ => cases ha
    | atEnd _ _ => rfl

/-- A symbol that asks for a token other than the end of the input is not moved away. -/
theorem Move.not_reads {c : Category} {d : ℕ} {t : Stage} (hc : c ≠ eof)
    (h : Move limit c ⟨d, a :: k⟩ t) : a.reads c = false := by
  cases h with
  | enter _ => rfl
  | leave => rfl
  | predict _ => rfl
  | atEnd _ heof => exact absurd heof hc

/-- The token leaves no choice about the next step. -/
theorem Step.unique (h : Step limit x y) (h' : Step limit x z) : y = z := by
  cases h with
  | move hmove =>
    cases h' with
    | move hmove' => rw [hmove.unique hmove']
    | pass ha hc =>
      rw [hmove.not_reads hc] at ha
      cases ha
  | pass ha hc =>
    cases h' with
    | move hmove =>
      rw [hmove.not_reads hc] at ha
      cases ha
    | pass _ _ => rfl

/-- A symbol that refuses a token is moved away by none. -/
theorem Move.refusal?_eq_none {c : Category} {d : ℕ} {t : Stage} (h : Move limit c ⟨d, a :: k⟩ t) :
    a.refusal? c = none := by
  cases h with
  | enter _ => rfl
  | leave => rfl
  | predict hbody => rw [Symbol.refusal?, hbody]
  | atEnd ha hc =>
    subst hc
    exact Symbol.refusal?_eq_none_of_reads ha

/-- Where a verdict ends the run there is no further step. -/
theorem Decides.not_step {v : Verdict} (h : Decides limit x.cursor.category x.stage v) {found : Token}
    {o : Outcome} (hv : v.outcome? limit found = some o) : ¬ Step limit x y := by
  intro hstep
  obtain ⟨c, stage⟩ := x
  cases h with
  | accept =>
    cases hstep with
    | move hmove => cases hmove
  | shift _ _ => cases hv
  | refuse hrefuse =>
    cases hstep with
    | move hmove =>
      rw [hmove.refusal?_eq_none] at hrefuse
      cases hrefuse
    | pass ha _ =>
      rw [Symbol.refusal?_eq_none_of_reads ha] at hrefuse
      cases hrefuse
  | tooDeep hd =>
    cases hstep with
    | move hmove =>
      cases hmove with
      | enter hlt => exact absurd hd (Nat.not_le.mpr hlt)
      | atEnd ha _ => cases ha
    | pass ha _ => cases ha

end

/-! ### The steps of the recognizer -/

theorem Unfolds.steps {limit : ℕ} {c : Cursor σ} {s t : Stage} (h : Unfolds limit c.category s t) :
    Steps limit ⟨c, s⟩ ⟨c, t⟩ := by
  induction h with
  | refl => exact .refl
  | tail _ hmove ih => exact ih.tail (.move hmove)

/-- The recognizer ends where the steps lead to a verdict that ends the run, with this verdict. -/
theorem Parser.exists_steps_run (pending : List Symbol) (p : Parser σ) :
    ∃ z v, Steps p.maxDepth ⟨p.cursor, p.depth, pending⟩ z ∧
      Decides p.maxDepth z.cursor.category z.stage v ∧
      v.outcome? p.maxDepth z.cursor.current = some (run pending p).1 ∧
      (run pending p).2.cursor = z.cursor := by
  fun_induction run pending p with
  | case1 pending p d h =>
    obtain ⟨t, ht, hdecides⟩ := exists_unfolds p.maxDepth p.cursor.category p.depth pending
    rw [h] at hdecides
    exact ⟨⟨p.cursor, t⟩, _, ht.steps, hdecides, rfl, rfl⟩
  | case2 pending p cause d k h =>
    obtain ⟨t, ht, hdecides⟩ := exists_unfolds p.maxDepth p.cursor.category p.depth pending
    rw [h] at hdecides
    exact ⟨⟨p.cursor, t⟩, _, ht.steps, hdecides, rfl, rfl⟩
  | case3 pending p d k h ih =>
    obtain ⟨a, ht, ha, hc⟩ := exists_of_settle_shift h
    obtain ⟨z, v, hsteps, hend⟩ := ih
    exact ⟨z, v, (ht.steps.tail (.pass ha hc)).trans hsteps, hend⟩

/-! ### Repetitions -/

/-- A phrase of which a further round ends with the phrase again. -/
def Phrase.Repeats (n : Phrase) : Prop :=
  ∃ body ∈ n.production.bodies, body.getLast? = some (.phrase n)

instance (n : Phrase) : Decidable n.Repeats :=
  inferInstanceAs (Decidable (∃ body ∈ n.production.bodies, body.getLast? = some (.phrase n)))

/-- The repetitions of the grammar: definitions, names, variables of a function, statements, further
conditions, the six levels of binary operators, signs, and expressions between commas. -/
theorem Phrase.repeats_iff {n : Phrase} : n.Repeats ↔ n ∈
    [definitions, moreNames, locals, statements, alternatives, moreDisjuncts, moreConjuncts,
      moreComparisons, moreRelations, moreTerms, moreFactors, signed, moreArguments] := by
  cases n <;> decide

namespace Parser

/-- **No phrase comes back without a token being passed.**  The recognizer moves by steps that do not go on
for ever, whatever the limit of nesting is; from the start all of them lead to one place, where no step is
left and the recognizer ends.  On the way, from a phrase to one that it is made of, the tokens that are left
become fewer or the rank becomes less.  So between two rounds of a repetition, or an expression or a block and
another one within it, at least one token has been passed; the end of the input is never passed. -/
theorem program_progress (limit : ℕ) (s : σ) :
    (WellFounded fun y x : Config σ => Step limit x y) ∧
      (∃ z v, (∀ y, Steps limit (.start s) y → Steps limit y z) ∧ (∀ y, ¬ Step limit z y) ∧
        Decides limit z.cursor.category z.stage v ∧
        v.outcome? limit z.cursor.current = some (start limit s).program.1 ∧
        (start limit s).program.2.cursor = z.cursor) ∧
      ∀ {x y : Config σ} {n p : Phrase} {k m : List Symbol}, StepsAbove limit k x y →
        x.stage.pending = .phrase n :: k → y.stage.pending = .phrase p :: m →
          Prod.Lex (· < ·) (· < ·) (y.cursor.remaining, p.rank) (x.cursor.remaining, n.rank) ∧
            (p = n → x.cursor.consumed < y.cursor.consumed) := by
  refine ⟨wellFounded_step limit, ?_, ?_⟩
  · obtain ⟨z, v, hsteps, hdecides, houtcome, hcursor⟩ :=
      exists_steps_run [.phrase .program] (start limit s)
    have hend (y : Config σ) : ¬ Step limit z y := hdecides.not_step houtcome
    have hunique : Relator.RightUnique (Step (σ := σ) limit) := fun _ _ _ => Step.unique
    refine ⟨z, v, ?_, hend, hdecides, houtcome, hcursor⟩
    intro y hy
    -- two runs from one place are parts of each other, and none goes on behind the end
    rcases Relation.ReflTransGen.total_of_right_unique hunique hy hsteps with hyz | hzy
    · exact hyz
    · rcases hzy.cases_head with rfl | ⟨w, hw, -⟩
      · exact .refl
      · exact absurd hw (hend w)
  · intro x y n p k m h hx hy
    have hadvances := h.advances_rank hx hy
    refine ⟨hadvances.lex, ?_⟩
    rintro rfl
    exact hadvances.consumed_lt

/-- Two signs in front of an operand: the second round starts behind the first sign. -/
theorem program_progress_of_signs :
    let ts : List Token := [⟨some "-", minus, ⟨1, 1⟩⟩, ⟨some "not", kwNot, ⟨1, 3⟩⟩]
    let x : Config (List Token) := ⟨Cursor.start ts, 0, [.phrase .signed]⟩
    let y : Config (List Token) := ⟨(Cursor.start ts).advance, 0, [.phrase .signed]⟩
    StepsAbove 0 [] x y ∧ x.cursor.consumed < y.cursor.consumed := by
  intro ts x y
  have hform : Move 0 minus ⟨0, [.phrase .signed]⟩ ⟨0, [.oneOf First.sign, .phrase .signed] ++ []⟩ :=
    .predict rfl
  have hpredict : Step 0 x ⟨Cursor.start ts, 0, [.oneOf First.sign, .phrase .signed]⟩ := .move hform
  have hpass : Step 0 ⟨Cursor.start ts, 0, [.oneOf First.sign, .phrase .signed]⟩ y :=
    .pass (by decide) (by decide)
  have hround : StepsAbove 0 [] x y := .tail (.single ⟨hpredict, by decide⟩) ⟨hpass, by decide⟩
  obtain ⟨-, -, hback⟩ := program_progress 0 ts
  exact ⟨hround, (hback hround rfl rfl).2 rfl⟩

end Parser

end Drac.Syntax
