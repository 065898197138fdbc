import Drac.Proofs.Appending
import Drac.Proofs.OnDemand

/-!
# Calls one after the other

A recognizer can be called any number of times, for a program or for a single token, and a call may fail
anywhere.  Afterwards it is as good as new: but for the tokens that it has counted and the events that
it has logged it is the recognizer at the start of the tokens that are left.

Two things carry this.  What a recognizer does depends neither on its counter nor on its log.  And the
levels of nesting that a run has opened are at any time those that the pending symbols close.  So none is
left when nothing is pending any more, and none when what is pending is given up, wherever that is.

## Main definitions

* `Call`, `Parser.call`, `Parser.callAll` — a request to a recognizer, and requests one after the other.
* `Parser.countedOn` — a recognizer that has counted and logged something before.
* `Parser.Meets` — the stages that a run goes through.

## Main results

* `Parser.run_countedOn` — what was counted and logged before makes no difference.
* `Parser.Meets.nested` — the levels that are open at any time of a run.
* `Parser.depth_run` — a run, whether it fails or not, ends with as many open levels as it has started with.
* `Parser.callAll_fresh` — **after any calls a recognizer is as good as new.**
-/

namespace Drac

/-! ### Counting on -/

/-- A cursor that has moved past `k` more tokens and has logged more events before. -/
def Cursor.countedOn {σ : Type} (k : ℕ) (log : Array Log.Event) (c : Cursor σ) : Cursor σ :=
  { c with consumed := k + c.consumed, log := log ++ c.log }

/-- A move does not depend on what was counted and logged before. -/
theorem Cursor.advance_countedOn {σ : Type} [TokenSource σ] (k : ℕ) (log : Array Log.Event)
    (c : Cursor σ) : (c.countedOn k log).advance = c.advance.countedOn k log := by
  have hcurrent : (c.countedOn k log).current = c.current := rfl
  have hsource : (c.countedOn k log).source = c.source := rfl
  by_cases heof : c.current.isEof = true
  · rw [advance_of_isEof heof, advance_of_isEof (hcurrent ▸ heof)]
  · have hlog (es : List Log.Event) : log ++ c.log ++ es = log ++ (c.log ++ es) :=
      Array.toList_inj.mp (by simp)
    rw [advance, advance, hcurrent, hsource, if_neg heof, if_neg heof]
    rcases TokenSource.pull c.source with ⟨token, es, s⟩
    cases token with
    | none => simp [countedOn, Nat.add_assoc, hlog]
    | some t => simp [countedOn, Nat.add_assoc, hlog]

namespace Syntax

open Category

/-! ### Calls -/

/-- A request to a recognizer. -/
inductive Call
  /-- Recognize a program. -/
  | program
  /-- Pass one token, of a category or of any category of a set. -/
  | expect (e : Expected)
  deriving DecidableEq, Repr

namespace Parser

variable {σ : Type} [TokenSource σ]

/-- Answers a request: a program is answered by nothing, a token that was asked for by this token. -/
def call (p : Parser σ) : Call → Except SyntaxError (Option Token) × Parser σ
  | .program => p.program.map (·.map fun _ => none) id
  | .expect (.category c) => (p.expect c).map (·.map some) id
  | .expect (.oneOf s) => (p.expectOneOf s).map (·.map some) id

theorem call_expect (p : Parser σ) (e : Expected) :
    p.call (.expect e) = (p.expecting e).map (·.map some) id := by
  cases e <;> rfl

/-- Answers requests one after the other. -/
def callAll (p : Parser σ) : List Call → List (Except SyntaxError (Option Token)) × Parser σ
  | [] => ([], p)
  | c :: cs => ((p.call c).2.callAll cs).map ((p.call c).1 :: ·) id

/-- A recognizer that has passed `k` more tokens and has logged more events before. -/
def countedOn (k : ℕ) (log : Array Log.Event) (p : Parser σ) : Parser σ :=
  { p with cursor := p.cursor.countedOn k log }

section

variable (k : ℕ) (log : Array Log.Event) (p : Parser σ)

theorem advance_countedOn : (p.countedOn k log).advance = p.advance.countedOn k log :=
  congrArg (fun c => { p with cursor := c }) (Cursor.advance_countedOn k log p.cursor)

/-- A run does not depend on what was counted and logged before. -/
theorem run_countedOn (pending : List Symbol) :
    run pending (p.countedOn k log) = (run pending p).map id (countedOn k log) := by
  fun_induction run pending p with
  | case1 pending p d h =>
    rw [run_of_accept (p := p.countedOn k log) h]
    rfl
  | case2 pending p cause d rest h =>
    rw [run_of_reject (p := p.countedOn k log) h]
    rfl
  | case3 pending p d rest h ih =>
    rw [run_of_shift (p := p.countedOn k log) h, ← ih, advance_countedOn]
    rfl

/-- Nor does the answer to a request. -/
theorem call_countedOn (c : Call) :
    (p.countedOn k log).call c = (p.call c).map id (countedOn k log) := by
  cases c with
  | program =>
    show Prod.map _ id (run [.phrase .program] (p.countedOn k log)) = _
    rw [run_countedOn]
    rfl
  | expect e =>
    rw [call_expect, call_expect, expecting, expecting, advance_countedOn]
    show Prod.map _ id (if e.contains p.cursor.category = true then _ else _) = _
    by_cases he : e.contains p.cursor.category = true
    · rw [if_pos he, if_pos he]
      rfl
    · rw [if_neg he, if_neg he]
      rfl

theorem callAll_countedOn (cs : List Call) :
    (p.countedOn k log).callAll cs = (p.callAll cs).map id (countedOn k log) := by
  induction cs generalizing p with
  | nil => rfl
  | cons c cs ih =>
    rw [callAll, call_countedOn]
    show Prod.map _ id (((p.call c).2.countedOn k log).callAll cs) = _
    rw [ih]
    rfl

end

/-! ### Open levels -/

/-- The stages that a run goes through, between two tokens and at every move before a token. -/
inductive Meets : Parser σ → List Symbol → Stage → Prop
  /-- Before the next token. -/
  | now {p : Parser σ} {pending : List Symbol} {s : Stage} :
      Unfolds p.maxDepth p.cursor.category ⟨p.depth, pending⟩ s → Meets p pending s
  /-- Behind the next token. -/
  | later {p : Parser σ} {pending rest : List Symbol} {d : ℕ} {s : Stage} :
      settle p.maxDepth p.cursor.category p.depth pending = .shift d rest →
      Meets { p.advance with depth := d } rest s → Meets p pending s

variable {p : Parser σ} {pending : List Symbol}

/-- What settling keeps holds at every stage of a run. -/
theorem Meets.keeps {P : ℕ → List Symbol → Prop} (hP : Invariant P) {s : Stage}
    (h : Meets p pending s) (hp : P p.depth pending) : P s.depth s.pending := by
  induction h with
  | now hs => exact hP.unfolds hs hp
  | later hshift _ ih => exact ih (hP.settle_shift hp hshift)

/-- At no time of a run are more levels open than the limit allows. -/
theorem Meets.depth_le {s : Stage} (h : Meets p pending s) (hdepth : p.depth ≤ p.maxDepth) :
    s.depth ≤ p.maxDepth := by
  induction h with
  | now hs => exact hs.depth_le hdepth
  | later hshift _ ih =>
    obtain ⟨a, hu, -, -⟩ := exists_of_settle_shift hshift
    exact ih (hu.depth_le hdepth)

/-- At any time of a run the levels that it has opened are those that the pending symbols close. -/
theorem Meets.nested {s : Stage} (h : Meets p pending s) (hpending : Nested 0 pending) :
    p.depth ≤ s.depth ∧ Nested (s.depth - p.depth) s.pending :=
  h.keeps (invariant_nested_above p.depth) ⟨Nat.le_refl _, by rwa [Nat.sub_self]⟩

/-- A run ends at a stage that it goes through, and there it gives up what is still pending. -/
theorem exists_meets_run (pending : List Symbol) (p : Parser σ) :
    ∃ s, Meets p pending s ∧ (run pending p).2.depth = s.depth - Symbol.closes s.pending := by
  fun_induction run pending p with
  | case1 pending p d h => exact ⟨⟨d, []⟩, .now (unfolds_of_settle_accept h), rfl⟩
  | case2 pending p cause d rest h => exact ⟨⟨d, rest⟩, .now (unfolds_of_settle_reject h), rfl⟩
  | case3 pending p d rest h ih =>
    obtain ⟨s, hs, hdepth⟩ := ih
    exact ⟨s, .later h hs, hdepth⟩

/-- A run over symbols that close the levels they open leaves as many levels open as there were, whether it
fails or not. -/
theorem depth_run (hpending : Nested 0 pending) : (run pending p).2.depth = p.depth := by
  obtain ⟨s, hs, hdepth⟩ := exists_meets_run pending p
  obtain ⟨hle, hnested⟩ := hs.nested hpending
  calc (run pending p).2.depth = s.depth - Symbol.closes s.pending := hdepth
    _ = s.depth - (s.depth - p.depth) := by rw [hnested.closes_eq]
    _ = p.depth := Nat.sub_sub_self hle

theorem maxDepth_run (pending : List Symbol) (p : Parser σ) :
    (run pending p).2.maxDepth = p.maxDepth := by
  fun_induction run pending p with
  | case1 | case2 => rfl
  | case3 _ _ _ _ _ ih => exact ih

/-- No call changes how many levels are open, or how many may be. -/
theorem depth_call (p : Parser σ) (c : Call) :
    (p.call c).2.depth = p.depth ∧ (p.call c).2.maxDepth = p.maxDepth := by
  cases c with
  | program =>
    have hpending : Nested 0 [.phrase .program] := rfl
    exact ⟨depth_run hpending, maxDepth_run ..⟩
  | expect e =>
    rw [call_expect, expecting]
    split
    · exact ⟨rfl, rfl⟩
    · exact ⟨rfl, rfl⟩

theorem depth_callAll (p : Parser σ) (cs : List Call) :
    (p.callAll cs).2.depth = p.depth ∧ (p.callAll cs).2.maxDepth = p.maxDepth := by
  induction cs generalizing p with
  | nil => exact ⟨rfl, rfl⟩
  | cons c cs ih =>
    obtain ⟨hdepth, hlimit⟩ := depth_call p c
    obtain ⟨hdepth', hlimit'⟩ := ih (p.call c).2
    exact ⟨hdepth'.trans hdepth, hlimit'.trans hlimit⟩

/-! ### Fresh recognizers -/

/-- With no level open a recognizer is the one at the start of what is left, counting on. -/
theorem eq_countedOn_start {p : Parser (List Token)} (hp : p.depth = 0) :
    p = (start p.maxDepth (p.cursor.current :: p.cursor.source)).countedOn p.consumed p.cursor.log := by
  rcases p with ⟨⟨source, current, consumed, log⟩, depth, limit⟩
  obtain rfl : depth = 0 := hp
  simp [start, Cursor.start, countedOn, Cursor.countedOn, Parser.consumed]

/-- **After any calls a recognizer is as good as new.**  No level of nesting is open.  While a program is
recognized there are at no time more open levels than the limit allows, and they are those that the
pending symbols close; so all of them end where these are given up.  Whatever is called for next is
answered as by a recognizer at the start of the tokens that are left, which afterwards differs in nothing
but that it has counted and logged less.  A call for a token that fails changes nothing; one that does not
gives the next token and moves past it, unless it is the end of the input. -/
theorem callAll_fresh (limit : ℕ) (ts : List Token) (calls : List Call) :
    let p := ((start limit ts).callAll calls).2
    let fresh := start limit (p.cursor.current :: p.cursor.source)
    p.depth = 0 ∧ p.maxDepth = limit ∧
      (∀ s, Meets p [.phrase .program] s →
        s.depth ≤ limit ∧ Nested s.depth s.pending ∧ Symbol.closes s.pending = s.depth) ∧
      (∀ more, p.callAll more = (fresh.callAll more).map id (countedOn p.consumed p.cursor.log)) ∧
      ∀ e : Expected,
        if e.contains p.cursor.category = true then
          (p.call (.expect e)).1 = .ok (some p.cursor.current) ∧
            if p.cursor.current.isEof = true then (p.call (.expect e)).2 = p
            else
              let q := (p.call (.expect e)).2
              q.consumed = p.consumed + 1 ∧ q.cursor.source = p.cursor.source.tail ∧
                q.cursor.current =
                  p.cursor.source.head?.getD (Token.eof p.cursor.current.endPosition)
        else p.call (.expect e) = (.error (.unexpectedToken e p.cursor.current), p) := by
  intro p fresh
  obtain ⟨hdepth, hlimit⟩ : p.depth = 0 ∧ p.maxDepth = limit :=
    depth_callAll (start limit ts) calls
  have hfresh : p = fresh.countedOn p.consumed p.cursor.log :=
    calc p = (start p.maxDepth (p.cursor.current :: p.cursor.source)).countedOn
            p.consumed p.cursor.log := eq_countedOn_start hdepth
      _ = fresh.countedOn p.consumed p.cursor.log := by rw [hlimit]
  refine ⟨hdepth, hlimit, fun s hs => ?_, fun more => ?_, fun e => ?_⟩
  · have hpending : Nested 0 [.phrase .program] := rfl
    obtain ⟨-, hnested⟩ := hs.nested hpending
    rw [hdepth] at hnested
    exact ⟨hlimit ▸ hs.depth_le (hdepth ▸ Nat.zero_le _), hnested, hnested.closes_eq⟩
  · calc p.callAll more = (fresh.countedOn p.consumed p.cursor.log).callAll more :=
          congrArg (fun q : Parser (List Token) => q.callAll more) hfresh
      _ = (fresh.callAll more).map id (countedOn p.consumed p.cursor.log) := callAll_countedOn ..
  · rw [call_expect, expecting]
    split
    · refine ⟨rfl, ?_⟩
      split
      · next heof => exact congrArg (fun c => { p with cursor := c }) (Cursor.advance_of_isEof heof)
      · next heof =>
        have heof : p.cursor.current.isEof = false := by simpa using heof
        refine ⟨Cursor.consumed_advance heof, ?_, ?_⟩
        · show p.cursor.advance.source = _
          rw [Cursor.source_advance heof]
          cases p.cursor.source <;> rfl
        · show p.cursor.advance.current = _
          rw [Cursor.current_advance heof]
          cases p.cursor.source <;> rfl
    · rfl

end Parser

end Syntax

end Drac
