import Drac.Proofs.Retention
import Mathlib.Logic.Function.Basic

/-!
# What leaves receive

An event that is logged passes one threshold after the other on its way to a leaf.  Each fan looks at its
own threshold only and hands the event on to all of its targets, so what a leaf receives is decided by the
thresholds on the way to it and by nothing that stands beside this way.  A leaf that occurs several times
is reached on several ways, and receives an event once on each of them.

The leaves are arbitrary: what a leaf holds is of a type of its own, and it takes events in as it likes.

## Main definitions

* `Sink.ways`, `Service.ways` — the thresholds on the ways to a leaf, one list for each time that it occurs.
* `Event.passes` — an event passes all thresholds on a way.
* `Service.log`, `Service.logAll` — what the leaves hold after one event, and after several ones.
* `Service.received` — the events that are handed to a leaf.

## Main results

* `Sink.count_reached` — a leaf is reached on the ways that an event passes.
* `Service.log_apply`, `Service.logAll_apply` — a leaf takes in what is handed to it, and is left alone
  otherwise.
* `Service.leaf_receives` — **every leaf receives the events that pass the thresholds on its way**, each
  once on each way, in the order in which they were logged.
* `Service.memory_retains` — a memory in a tree holds the newest of these.
-/

namespace Drac.Log

/-- An event passes all thresholds on a way. -/
def Event.passes (e : Event) (way : List Level) : Bool := way.all fun threshold => threshold.admits e.level

theorem Event.passes_cons (e : Event) (threshold : Level) (way : List Level) :
    e.passes (threshold :: way) = (threshold.admits e.level && e.passes way) := rfl

theorem Event.passes_singleton (e : Event) (threshold : Level) :
    e.passes [threshold] = threshold.admits e.level := Bool.and_true _

/-- An event passes a way if it is at or below every threshold on it. -/
theorem Event.passes_eq (e : Event) :
    e.passes = fun way => decide (∀ threshold ∈ way, e.level.rank ≤ threshold.rank) := by
  funext way
  rw [Bool.eq_iff_iff, passes, List.all_eq_true, decide_eq_true_iff]
  simp only [Level.admits, decide_eq_true_iff]

variable {ι : Type} [DecidableEq ι]

/-! ### Ways -/

namespace Sink

mutual

/-- The ways to a leaf: for each time that it occurs in a tree, the thresholds from the root down to it, its
own included.  A memory has none. -/
def ways (leaf : ι) : Sink ι → List (List Level)
  | memory i => if i = leaf then [[]] else []
  | console i threshold => if i = leaf then [[threshold]] else []
  | structured i threshold => if i = leaf then [[threshold]] else []
  | fan threshold targets => (waysAll leaf targets).map (threshold :: ·)

/-- The ways to a leaf in several trees. -/
def waysAll (leaf : ι) : List (Sink ι) → List (List Level)
  | [] => []
  | s :: ss => ways leaf s ++ waysAll leaf ss

end

/-- Behind a threshold an event passes the ways that it passes without it, or none of them. -/
theorem countP_passes_map_cons (e : Event) (threshold : Level) (ways : List (List Level)) :
    (ways.map (threshold :: ·)).countP e.passes =
      if threshold.admits e.level then ways.countP e.passes else 0 := by
  rw [List.countP_map]
  by_cases h : threshold.admits e.level = true
  · rw [if_pos h]
    refine List.countP_congr fun way _ => ?_
    rw [Function.comp_apply, Event.passes_cons, h, Bool.true_and]
  · rw [if_neg h, List.countP_eq_zero]
    intro way _
    rw [Function.comp_apply, Event.passes_cons, Bool.eq_false_iff.mpr h, Bool.false_and]
    exact Bool.false_ne_true

/-- A leaf at the end of a way is reached if the event passes the way. -/
theorem count_leaf (e : Event) (leaf i : ι) (way : List Level) :
    (if e.passes way then [i] else []).count leaf =
      (if i = leaf then [way] else []).countP e.passes := by
  by_cases hi : i = leaf
  · subst hi
    rw [if_pos rfl, List.countP_singleton]
    split
    · exact List.count_singleton_self
    · exact List.count_nil
  · rw [if_neg hi, List.countP_nil]
    refine List.count_eq_zero.mpr fun hmem => ?_
    split at hmem
    · exact hi (List.mem_singleton.mp hmem).symm
    · cases hmem

mutual

/-- A leaf is reached once on each way that the event passes. -/
theorem count_reached (e : Event) (leaf : ι) :
    ∀ s : Sink ι, (s.reached e.level).count leaf = (s.ways leaf).countP e.passes
  | memory i => count_leaf e leaf i []
  | console i threshold => by
    rw [reached, ways, ← count_leaf, Event.passes_singleton]
  | structured i threshold => by
    rw [reached, ways, ← count_leaf, Event.passes_singleton]
  | fan threshold targets => by
    rw [reached, ways, countP_passes_map_cons, ← count_reachedAll e leaf targets]
    split
    · rfl
    · rfl

/-- The same in several trees. -/
theorem count_reachedAll (e : Event) (leaf : ι) :
    ∀ ss : List (Sink ι), (reachedAll e.level ss).count leaf = (waysAll leaf ss).countP e.passes
  | [] => rfl
  | s :: ss => by
    rw [reachedAll, waysAll, List.count_append, List.countP_append, count_reached e leaf s,
      count_reachedAll e leaf ss]

end

end Sink

/-! ### Services -/

theorem Memory.run_map_log (m : Memory) (es : List Event) : m.run (es.map .log) = es.foldl log m := by
  rw [run, List.foldl_map]
  rfl

theorem Memory.logged_map_log (es : List Event) : logged (es.map .log) = es := by
  induction es using List.reverseRecOn with
  | nil => rfl
  | append_singleton es e ih => rw [List.map_append, List.map_singleton, logged_concat_log, ih]

namespace Service

/-- The ways to a leaf from a service: its own threshold stands in front of those of the tree. -/
def ways (s : Service ι) (leaf : ι) : List (List Level) := (s.sink.ways leaf).map (s.threshold :: ·)

theorem count_reached (s : Service ι) (e : Event) (leaf : ι) :
    (s.reached e).count leaf = (s.ways leaf).countP e.passes := by
  rw [reached, shouldLog, ways, Sink.countP_passes_map_cons, ← Sink.count_reached]
  split
  · rfl
  · rfl

/-- The events that are handed to a leaf when some events are logged. -/
def received (s : Service ι) (leaf : ι) (es : List Event) : List Event :=
  es.flatMap fun e => List.replicate ((s.reached e).count leaf) e

theorem received_eq (s : Service ι) (leaf : ι) (es : List Event) :
    s.received leaf es = es.flatMap fun e => List.replicate ((s.ways leaf).countP e.passes) e := by
  simp only [received, count_reached]

/-- A leaf that occurs once is handed the events that pass the way to it. -/
theorem received_of_ways_eq {s : Service ι} {leaf : ι} {way : List Level} (h : s.ways leaf = [way])
    (es : List Event) : s.received leaf es = es.filter fun e => e.passes way := by
  rw [received_eq, h]
  induction es with
  | nil => rfl
  | cons e es ih =>
    rw [List.flatMap_cons, ih, List.countP_singleton, List.filter_cons]
    split
    · rfl
    · rfl

section

variable {σ : ι → Type} (s : Service ι) (receive : (i : ι) → σ i → Event → σ i)

/-- What the leaves hold after an event: those that it reaches take it in, one after the other. -/
def log (held : (i : ι) → σ i) (e : Event) : (i : ι) → σ i :=
  (s.reached e).foldl (fun held i => Function.update held i (receive i (held i) e)) held

/-- What the leaves hold after some events. -/
def logAll (held : (i : ι) → σ i) (es : List Event) : (i : ι) → σ i := es.foldl (s.log receive) held

/-- A leaf takes an event in as often as it is handed to it, and is left alone if others are handed it. -/
theorem log_apply (held : (i : ι) → σ i) (e : Event) (leaf : ι) :
    s.log receive held e leaf =
      (List.replicate ((s.reached e).count leaf) e).foldl (receive leaf) (held leaf) := by
  rw [log]
  generalize s.reached e = leaves
  induction leaves generalizing held with
  | nil => rfl
  | cons i leaves ih =>
    rw [List.foldl_cons, ih]
    by_cases hi : i = leaf
    · subst hi
      rw [Function.update_self, List.count_cons_self, List.replicate_succ, List.foldl_cons]
    · rw [Function.update_of_ne (Ne.symm hi), List.count_cons_of_ne hi]

/-- After some events a leaf has taken in what was handed to it. -/
theorem logAll_apply (held : (i : ι) → σ i) (es : List Event) (leaf : ι) :
    s.logAll receive held es leaf = (s.received leaf es).foldl (receive leaf) (held leaf) := by
  induction es generalizing held with
  | nil => rfl
  | cons e es ih =>
    rw [logAll, List.foldl_cons, ← logAll, ih, log_apply, received, received, List.flatMap_cons,
      List.foldl_append]

/-- **Every leaf receives the events that pass the thresholds on its way.**  Whatever the leaves of a service
are, and whatever the others of them do: after some events a leaf has taken in each of them, in the order in
which they were logged, once for each time that it occurs behind thresholds none of which is below the event.
A leaf that occurs once has taken in those events that are at or below every threshold on its way. -/
theorem leaf_receives (held : (i : ι) → σ i) (es : List Event) (leaf : ι) :
    s.logAll receive held es leaf =
        (es.flatMap fun e => List.replicate
          ((s.ways leaf).countP fun way => ∀ threshold ∈ way, e.level.rank ≤ threshold.rank) e).foldl
          (receive leaf) (held leaf) ∧
      ∀ way, s.ways leaf = [way] →
        s.logAll receive held es leaf =
          (es.filter fun e => ∀ threshold ∈ way, e.level.rank ≤ threshold.rank).foldl
            (receive leaf) (held leaf) := by
  rw [logAll_apply]
  refine ⟨?_, fun way hway => ?_⟩
  · rw [received_eq]
    simp only [Event.passes_eq]
  · rw [received_of_ways_eq hway]
    simp only [Event.passes_eq]

end

/-- A memory that occurs twice and a console in one tree.  The warning is handed to the memory on both ways
and the other message on one, and two events are all that it can hold. -/
theorem leaf_receives_of_shared_memory :
    let s : Service Bool :=
      ⟨.debug, .fan .info [.memory true, .fan .warning [.memory true], .console false .error]⟩
    let receive : (i : Bool) → cond i Memory (List Event) → Event → cond i Memory (List Event)
      | true => Memory.log
      | false => fun events e => List.append events [e]
    let held : (i : Bool) → cond i Memory (List Event)
      | true => .empty 2
      | false => []
    let failure := Event.error .readFailure "a"
    let es := [failure, .warning "b" none, .info "c", .debug "d"]
    s.ways true = [[.debug, .info], [.debug, .info, .warning]] ∧
      s.ways false = [[.debug, .info, .error]] ∧
      Memory.events (s.logAll receive held es true) = #[.warning "b" none, .info "c"] ∧
      s.logAll receive held es false = [failure] := by
  intro s receive held failure es
  have hconsole : s.ways false = [[.debug, .info, .error]] := by decide
  refine ⟨by decide, hconsole, ?_, ?_⟩
  · rw [(leaf_receives s receive held es true).1]
    decide
  · rw [(leaf_receives s receive held es false).2 _ hconsole]
    rfl

/-- A memory that stands in a tree holds the newest of the events that it is handed. -/
theorem memory_retains {capacity : ℕ} (hpos : 0 < capacity) (s : Service ι) (es : List Event) (leaf : ι) :
    (s.logAll (fun _ => Memory.log) (fun _ => .empty capacity) es leaf).events.toList =
      (s.received leaf es).rtake capacity := by
  rw [logAll_apply, ← Memory.run_map_log, Memory.toList_run hpos, Memory.logged_map_log]

end Service

end Drac.Log
