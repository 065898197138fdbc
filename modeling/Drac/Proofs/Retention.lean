import Drac.Log.Sink
import Mathlib.Data.List.DropRight

/-!
# What a memory retains

A bounded memory makes room before it keeps an event: it counts how many of the oldest events have to go and
drops them.  Whatever it held before, afterwards it holds the newest of these events and the new one, up to
its bound.  So after any number of events it holds the newest ones logged since it was last cleared.

## Main definitions

* `Memory.Operation`, `Memory.run` — what can be done to a memory, and a sequence of it.
* `Memory.logged` — the events that were logged since the memory was last cleared.

## Main results

* `Memory.toList_log` — one event drives out exactly as many as there is no room for.
* `Memory.toList_run` — so a run leaves the newest events.
* `Memory.retains_newest` — **a memory holds the newest events up to its bound**, and what it reports about
  failures and warnings is about these.
-/

namespace Drac.Log.Memory

/-! ### Operations -/

/-- What can be done to a memory. -/
inductive Operation
  /-- An event is logged. -/
  | log (e : Event)
  /-- All events are forgotten. -/
  | clear
  deriving DecidableEq, Repr

/-- The event that is logged, if one is. -/
def Operation.event? : Operation → Option Event
  | log e => some e
  | clear => none

/-- A memory after an operation. -/
def apply (m : Memory) : Operation → Memory
  | .log e => m.log e
  | .clear => m.clear

/-- A memory after some operations. -/
def run (m : Memory) (ops : List Operation) : Memory := ops.foldl apply m

theorem run_concat (m : Memory) (ops : List Operation) (o : Operation) :
    m.run (ops ++ [o]) = (m.run ops).apply o := List.foldl_concat ..

/-- The events that were logged since the memory was last cleared, in order. -/
def logged (ops : List Operation) : List Event :=
  (ops.rtakeWhile fun o => o.event?.isSome).filterMap Operation.event?

@[simp] theorem logged_nil : logged [] = [] := rfl

@[simp] theorem logged_concat_log (ops : List Operation) (e : Event) :
    logged (ops ++ [.log e]) = logged ops ++ [e] := by
  rw [logged, List.rtakeWhile_concat_pos _ _ _ rfl, List.filterMap_append]
  rfl

@[simp] theorem logged_concat_clear (ops : List Operation) : logged (ops ++ [.clear]) = [] := by
  rw [logged, List.rtakeWhile_concat_neg _ _ _ (by simp [Operation.event?])]
  rfl

/-! ### One operation -/

@[simp] theorem capacity_log (m : Memory) (e : Event) : (m.log e).capacity = m.capacity := by
  unfold log
  split <;> rfl

@[simp] theorem capacity_apply (m : Memory) (o : Operation) : (m.apply o).capacity = m.capacity := by
  cases o with
  | log e => exact capacity_log m e
  | clear => rfl

@[simp] theorem capacity_run (m : Memory) (ops : List Operation) :
    (m.run ops).capacity = m.capacity := by
  induction ops using List.reverseRecOn with
  | nil => rfl
  | append_singleton ops o ih => rw [run_concat, capacity_apply, ih]

/-- Where there is room for one event at least, logging an event leaves the newest ones, this one included.
No more events are driven out than there are, and as many as there is no room for. -/
theorem toList_log {m : Memory} (hpos : 0 < m.capacity) (e : Event) :
    (m.log e).events.toList = (m.events.toList ++ [e]).rtake m.capacity := by
  obtain ⟨room, hroom⟩ := Nat.exists_eq_succ_of_ne_zero hpos.ne'
  rw [hroom, List.rtake_concat_succ, List.rtake, Array.length_toList]
  unfold log
  split
  · next hfull =>
    have hevicted : m.events.size - m.capacity + 1 = m.events.size - room := by omega
    rw [hevicted]
    simp [List.take_of_length_le]
  · next hfree =>
    have hnone : m.events.size - room = 0 := by omega
    rw [hnone, Array.toList_push, List.drop_zero]

/-! ### Runs -/

/-- What is cut off before an event is added would be cut off after it. -/
theorem rtake_rtake_concat (es : List Event) (e : Event) (k : ℕ) :
    (es.rtake k ++ [e]).rtake k = (es ++ [e]).rtake k := by
  cases k with
  | zero => rw [List.rtake_zero, List.rtake_zero]
  | succ k =>
    have hnested : (es.rtake (k + 1)).rtake k = es.rtake k := by
      simp only [List.rtake_eq_reverse_take_reverse, List.reverse_reverse, List.take_take,
        Nat.min_eq_left (Nat.le_succ k)]
    rw [List.rtake_concat_succ, List.rtake_concat_succ, hnested]

/-- A run leaves the newest events that were logged since the memory was last cleared. -/
theorem toList_run {capacity : ℕ} (hpos : 0 < capacity) (ops : List Operation) :
    ((empty capacity).run ops).events.toList = (logged ops).rtake capacity := by
  induction ops using List.reverseRecOn with
  | nil => rw [logged_nil, List.rtake_nil]; rfl
  | append_singleton ops o ih =>
    have hcapacity : ((empty capacity).run ops).capacity = capacity := capacity_run ..
    rw [run_concat]
    cases o with
    | log e =>
      have hroom : 0 < ((empty capacity).run ops).capacity := by rwa [hcapacity]
      rw [logged_concat_log, ← rtake_rtake_concat, ← ih]
      exact (toList_log hroom e).trans (by rw [hcapacity])
    | clear =>
      rw [logged_concat_clear, List.rtake_nil]
      rfl

/-- **A memory holds the newest events up to its bound.**  Whatever has been logged and cleared, of the events
logged since the last time it was cleared it holds as many of the newest as fit, in the order in which they
were logged.  So it never outgrows its bound.  Its failures and its warnings are those among these events, in
the same order, and it knows of a failure with some code exactly if one of them is. -/
theorem retains_newest {capacity : ℕ} (hpos : 0 < capacity) (ops : List Operation) :
    let m := (empty capacity).run ops
    let newest := (logged ops).rtake (min (logged ops).length capacity)
    m.events.toList = newest ∧
      m.size = min (logged ops).length capacity ∧
      m.size ≤ capacity ∧
      m.errors.toList = newest.filter (fun e => e.level = .error) ∧
      m.warnings.toList = newest.filter (fun e => e.level = .warning) ∧
      ∀ c, m.hasError c = true ↔ ∃ e ∈ newest, e.level = .error ∧ e.code = c := by
  intro m newest
  have hnewest : newest = (logged ops).rtake capacity := by
    show List.drop _ _ = List.drop _ _
    congr 1
    omega
  have hevents : m.events.toList = newest := (toList_run hpos ops).trans hnewest.symm
  have hsize : m.size = min (logged ops).length capacity := by
    rw [size, ← Array.length_toList, hevents, hnewest, List.rtake, List.length_drop]
    omega
  refine ⟨hevents, hsize, ?_, ?_, ?_, fun c => ?_⟩
  · rw [hsize]
    exact Nat.min_le_right ..
  · rw [errors, Array.toList_filter, hevents]
    rfl
  · rw [warnings, Array.toList_filter, hevents]
    rfl
  · rw [hasError, ← Array.any_toList, hevents, List.any_eq_true]
    simp [Event.isError]

/-- Two events are left of four, the first of which was cleared. -/
theorem retains_newest_of_two :
    let ops : List Operation :=
      [.log (.error .readFailure "a"), .clear, .log (.error .fileNotFound "b"), .log (.info "c"),
        .log (.error .invalidPath "d")]
    0 < 2 ∧ ((empty 2).run ops).events.toList = [.info "c", .error .invalidPath "d"] ∧
      ((empty 2).run ops).size = 2 ∧
      ((empty 2).run ops).errors.toList = [.error .invalidPath "d"] ∧
      ((empty 2).run ops).hasError .invalidPath = true ∧
      ((empty 2).run ops).hasError .fileNotFound = false := by
  intro ops
  obtain ⟨hevents, hsize, -, herrors, -, hcode⟩ := retains_newest Nat.two_pos ops
  refine ⟨Nat.two_pos, hevents, hsize, herrors, (hcode _).mpr ⟨.error .invalidPath "d", ?_⟩, ?_⟩
  · decide
  · rw [Bool.eq_false_iff, ne_eq, hcode]
    decide

end Drac.Log.Memory
