import Drac.Proofs.Runs
import Mathlib.Data.List.Infix

/-!
# The limit of nesting

The limit only ever cuts a run short.  A run that it does not stop is the same under every larger
limit, and one that it stops goes on at least as far.  Between two tokens at most one level is opened,
and none before the first token, so there are always fewer open levels than tokens passed: a limit
that is not below the number of tokens never stops anything.

## Main definitions

* `opens` — the levels that can be opened before the next token is passed.
* `Shallow` — pending symbols of which no part opens more than one level.

## Main results

* `Reaches.depth_add_opens_le` — the tokens passed bound the levels that are open or about to be.
* `Stops.mono`, `Stops.le_of_limit_le`, `Stops.limit_lt_of_tooDeep` — what a larger limit does to a run.
* `Parser.program_filtered_by_limit` — **the limit is a filter**: it changes no outcome but by refusing
  deeper nesting.
-/

namespace Drac.Syntax

open Category

/-! ### Opening levels -/

/-- The levels that can be opened for a phrase before a token is passed. -/
def Phrase.opens : Phrase → ℕ
  | expression | block | arguments => 1
  | _ => 0

/-- The levels that can be opened for a symbol before a token is passed. -/
def Symbol.opens : Symbol → ℕ
  | phrase n => n.opens
  | enter => 1
  | _ => 0

/-- The levels that can be opened for pending symbols before a token is passed. -/
def opens : List Symbol → ℕ
  | [] => 0
  | s :: k => s.opens + if s.passable then opens k else 0

theorem opens_append (b k : List Symbol) :
    opens (b ++ k) = opens b + if b.all Symbol.passable then opens k else 0 := by
  induction b with
  | nil => simp [opens]
  | cons s b ih =>
    simp only [List.cons_append, opens, ih, List.all_cons]
    by_cases hs : s.passable = true
    · simp only [hs, if_true, Bool.true_and, Nat.add_assoc]
    · simp [hs]

theorem opens_phrase (n : Phrase) (k : List Symbol) :
    opens (.phrase n :: k) = n.opens + if n.nullable then opens k else 0 := rfl

theorem opens_enter (k : List Symbol) : opens (.enter :: k) = opens k + 1 := Nat.add_comm ..

theorem opens_leave (k : List Symbol) : opens (.leave :: k) = opens k := Nat.zero_add _

/-- A form of a phrase opens no more levels than the phrase. -/
theorem opens_body_append_le {n : Phrase} {body : List Symbol} (h : body ∈ n.production.bodies)
    (k : List Symbol) : opens (body ++ k) ≤ opens (.phrase n :: k) := by
  have hbody : opens body ≤ n.opens := by
    revert body
    cases n <;> decide
  have hpass := (Phrase.weight_lt_rank h).2
  -- what follows counts for the form only if it does for the phrase
  rw [opens_append, opens_phrase]
  by_cases hb : body.all Symbol.passable = true
  · rw [if_pos hb, if_pos (hpass hb)]
    omega
  · rw [if_neg hb]
    omega

/-- Pending symbols of which no part opens more than one level before a token is passed. -/
def Shallow (pending : List Symbol) : Prop := ∀ k ∈ pending.tails, opens k ≤ 1

instance (pending : List Symbol) : Decidable (Shallow pending) :=
  inferInstanceAs (Decidable (∀ k ∈ pending.tails, opens k ≤ 1))

theorem Shallow.opens_le {pending : List Symbol} (h : Shallow pending) : opens pending ≤ 1 :=
  h pending ((List.mem_tails ..).mpr (List.suffix_refl _))

theorem Shallow.tail {s : Symbol} {pending : List Symbol} (h : Shallow (s :: pending)) :
    Shallow pending := fun k hk => h k (List.mem_cons_of_mem _ hk)

/-- No part of a form opens more than one level, nor any level if a token need not be passed in it. -/
theorem opens_le_of_mem_tails {n : Phrase} {body b : List Symbol} (h : body ∈ n.production.bodies)
    (hb : b ∈ body.tails) : opens b ≤ 1 ∧ (b.all Symbol.passable = true → opens b = 0) := by
  have key : ∀ body ∈ n.production.bodies, ∀ b ∈ body.tails,
      opens b ≤ 1 ∧ (b.all Symbol.passable = true → opens b = 0) := by
    cases n <;> decide
  exact key body h b hb

theorem Shallow.body_append {n : Phrase} {body k : List Symbol} (h : Shallow (.phrase n :: k))
    (hbody : body ∈ n.production.bodies) : Shallow (body ++ k) := by
  have hk : Shallow k := h.tail
  intro l hl
  -- a part starts in the form or behind it
  rw [List.tails_append, List.mem_append, List.mem_map] at hl
  rcases hl with ⟨b, hb, rfl⟩ | hl
  · obtain ⟨hone, hnone⟩ := opens_le_of_mem_tails hbody hb
    rw [opens_append]
    split
    · next hpass =>
      rw [hnone hpass, Nat.zero_add]
      exact hk.opens_le
    · exact hone
  · exact hk l (List.mem_of_mem_tail hl)

/-- Every form opens its levels one by one. -/
theorem invariant_shallow : Invariant fun _ => Shallow where
  token := Shallow.tail
  oneOf := Shallow.tail
  enter := Shallow.tail
  leave := Shallow.tail
  phrase hbody h := h.body_append hbody

/-! ### Open levels and passed tokens -/

section

variable {limit depth d : ℕ} {c : Category} {pending k : List Symbol}

/-- A move opens no level that was not about to be opened. -/
theorem Move.depth_add_opens_le {s t : Stage} (h : Move limit c s t) :
    t.depth + opens t.pending ≤ s.depth + opens s.pending := by
  cases h with
  | @enter d k _ =>
    have henter := opens_enter k
    show d + 1 + opens k ≤ d + opens (.enter :: k)
    omega
  | @leave d k =>
    have hleave := opens_leave k
    show d - 1 + opens k ≤ d + opens (.leave :: k)
    omega
  | predict hbody =>
    exact Nat.add_le_add_left (opens_body_append_le (Production.mem_bodies_of_predict hbody) _) _
  | atEnd ha _ =>
    refine Nat.add_le_add_left ?_ _
    rcases Symbol.eq_of_reads ha with rfl | ⟨s, rfl, hs⟩
    · simp [opens, Symbol.opens, Symbol.passable]
    · simp [opens, Symbol.opens, Symbol.passable, hs]

theorem Unfolds.depth_add_opens_le {s t : Stage} (h : Unfolds limit c s t) :
    t.depth + opens t.pending ≤ s.depth + opens s.pending := by
  induction h with
  | refl => exact le_rfl
  | tail _ hmove ih => exact hmove.depth_add_opens_le.trans ih

theorem depth_le_of_settle_shift (h : settle limit c depth pending = .shift d k) :
    d ≤ depth + opens pending := by
  obtain ⟨a, hu, -, -⟩ := exists_of_settle_shift h
  exact (Nat.le_add_right d _).trans hu.depth_add_opens_le

/-- The limit refuses a token only where it is reached by levels about to be opened. -/
theorem limit_lt_of_settle_tooDeep (h : settle limit c depth pending = .reject .tooDeep d k) :
    limit < depth + opens pending := by
  obtain ⟨k, hu, hd⟩ := exists_of_settle_tooDeep h
  have hle : d + opens (.enter :: k) ≤ depth + opens pending := hu.depth_add_opens_le
  rw [opens_enter] at hle
  omega

end

/-- Each passed token allows for one more level that is open or about to be. -/
theorem Reaches.depth_add_opens_le {limit : ℕ} {s t : Stage} {p : List Category}
    (h : Reaches limit s p t) (hs : Shallow s.pending) :
    t.depth + opens t.pending ≤ s.depth + opens s.pending + p.length := by
  induction h with
  | refl => exact Nat.le_refl _
  | @step s t _ c p hstep _ ih =>
    have ht : Shallow t.pending := invariant_shallow.settle_shift hs hstep
    -- the levels opened before the token were counted, and behind it there is at most one more
    have hdepth := depth_le_of_settle_shift hstep
    have hopens := ht.opens_le
    have hrest := ih ht
    rw [List.length_cons]
    omega

theorem Stage.shallow_start : Shallow start.pending := by decide

/-! ### Runs under two limits -/

namespace Stops

variable {limit limit' k k' : ℕ} {w : List Category} {j j' : Judgement}

/-- A run that the limit does not stop is the same under every larger limit. -/
theorem mono (h : Stops limit w k j) (hj : j ≠ .error .tooDeep) (hl : limit ≤ limit') :
    Stops limit' w k j := by
  obtain ⟨t, ht, hsettle⟩ := h.judged
  refine ⟨h.le_length, t, ht.mono hl, ?_⟩
  rw [settle_mono hl]
  · exact hsettle
  · intro d k hdeep
    rw [hdeep] at hsettle
    exact hj (Option.some.inj hsettle).symm

/-- Under a larger limit a run goes at least as far. -/
theorem le_of_limit_le (h : Stops limit w k j) (h' : Stops limit' w k' j') (hl : limit ≤ limit') :
    k ≤ k' := by
  obtain ⟨t, ht, -⟩ := h.judged
  by_contra hlt
  exact h'.not_reaches (Nat.lt_of_not_le hlt) h.le_length t (ht.mono hl)

/-- A limit that stops a run is smaller than the number of tokens passed. -/
theorem limit_lt_of_tooDeep (h : Stops limit w k (.error .tooDeep)) : limit < k := by
  obtain ⟨t, ht, hsettle⟩ := h.judged
  obtain ⟨d, rest, hreject⟩ := Verdict.exists_eq_reject_of_judgement? hsettle
  have hlimit := limit_lt_of_settle_tooDeep hreject
  have hdepth := ht.depth_add_opens_le Stage.shallow_start
  have hstart : Stage.start.depth + opens Stage.start.pending = 0 := by decide
  rw [List.length_take_of_le h.le_length] at hdepth
  omega

end Stops

namespace Parser

/-- An error about nesting tells of the limit and of the token at which the run stopped. -/
theorem eq_of_maxNestingDepth {limit n : ℕ} {found t : Token} {j : Judgement}
    (h : j.mapError (Refusal.error limit found) = .error (.maxNestingDepth n t)) :
    j = .error .tooDeep ∧ n = limit ∧ t = found := by
  cases j with
  | ok => cases h
  | error cause =>
    cases cause with
    | expected e => cases h
    | tooDeep =>
      cases h
      exact ⟨rfl, rfl, rfl⟩

/-- An error that is not about nesting does not tell of the limit. -/
theorem mapError_error_eq {j : Judgement} (hj : j ≠ .error .tooDeep) (limit limit' : ℕ)
    (found : Token) :
    j.mapError (Refusal.error limit' found) = j.mapError (Refusal.error limit found) := by
  cases j with
  | ok => rfl
  | error cause =>
    cases cause with
    | expected e => rfl
    | tooDeep => exact absurd rfl hj

/-- **The limit is a filter.**  A run that it does not stop has the same outcome after the same number
of tokens under every larger limit.  If it stops a run, the error tells of the limit and of the token
after those that were passed, and under a larger limit no fewer tokens are passed.  It stops no run
over at most as many tokens as it allows levels. -/
theorem program_filtered_by_limit {limit limit' : ℕ} (hl : limit ≤ limit') (ts : List Token) :
    ((∀ n t, (start limit ts).program.1 ≠ .error (.maxNestingDepth n t)) →
      (start limit' ts).program.1 = (start limit ts).program.1 ∧
        (start limit' ts).program.2.consumed = (start limit ts).program.2.consumed) ∧
    (∀ n t, (start limit ts).program.1 = .error (.maxNestingDepth n t) →
      n = limit ∧ t = tokenAt ts (start limit ts).program.2.consumed ∧
        (start limit ts).program.2.consumed ≤ (start limit' ts).program.2.consumed) ∧
    ((ts.takeWhile fun t => !t.isEof).length ≤ limit →
      ∀ n t, (start limit ts).program.1 ≠ .error (.maxNestingDepth n t)) := by
  obtain ⟨j, hstops, houtcome⟩ := exists_stops limit ts
  obtain ⟨j', hstops', -⟩ := exists_stops limit' ts
  refine ⟨fun hnot => ?_, fun n t hdeep => ?_, fun hlength n t hdeep => ?_⟩
  · have hj : j ≠ .error .tooDeep := by
      rintro rfl
      exact hnot _ _ houtcome
    obtain ⟨hconsumed, houtcome'⟩ := program_of_stops (hstops.mono hj hl)
    refine ⟨?_, hconsumed⟩
    rw [houtcome', houtcome]
    exact mapError_error_eq hj ..
  · rw [houtcome] at hdeep
    obtain ⟨-, rfl, rfl⟩ := eq_of_maxNestingDepth hdeep
    exact ⟨rfl, rfl, hstops.le_of_limit_le hstops' hl⟩
  · rw [houtcome] at hdeep
    obtain ⟨rfl, -, -⟩ := eq_of_maxNestingDepth hdeep
    have hlt := hstops.limit_lt_of_tooDeep
    have hle := hstops.le_length
    rw [word, List.length_map] at hle
    omega

/-- In `f ( ) { x = ( ( 1 ) ) ; }` the third expression is refused under a limit of two levels, at the
number, and nothing is refused under a limit of three. -/
theorem program_filtered_by_limit_of_parentheses :
    let ts : List Token :=
      [identifier, openParen, closeParen, openBrace, identifier, assign, openParen, openParen,
        intLiteral, closeParen, closeParen, semicolon, closeBrace].map fun c => ⟨none, c, .start⟩
    (start 2 ts).program.1 = .error (.maxNestingDepth 2 (tokenAt ts 8)) ∧
      (start 3 ts).program.1 = .ok () ∧
      (start 2 ts).program.2.consumed ≤ (start 3 ts).program.2.consumed ∧
      (start 4 ts).program.2.consumed = (start 3 ts).program.2.consumed := by
  intro ts
  have hdeep : (start 2 ts).program.1 = .error (.maxNestingDepth 2 (tokenAt ts 8)) := by
    decide +kernel
  have hok : (start 3 ts).program.1 = .ok () := by decide +kernel
  have htwo := program_filtered_by_limit (Nat.le_succ 2) ts
  have hthree := program_filtered_by_limit (Nat.le_succ 3) ts
  obtain ⟨-, -, hle⟩ := htwo.2.1 _ _ hdeep
  have hsame := hthree.1 fun n t h => by rw [hok] at h; cases h
  exact ⟨hdeep, hok, hle, hsame.2⟩

end Parser

end Drac.Syntax
