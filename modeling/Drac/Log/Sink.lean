import Drac.Log.Event

/-!
# Where events go

Events are handed to a tree of sinks.  A fan hands every event that passes its threshold on to all
of its targets in order; the leaves keep or print what reaches them.

## Main definitions

* `Sink`, `Sink.reached` — a tree, and the leaves that an event of some level reaches.
* `Service` — a tree behind a threshold of its own.
* `Memory`, `Memory.log` — a leaf that keeps the newest events up to a bound.
-/

namespace Drac.Log

/-! ### Trees of sinks -/

/-- A tree of sinks; leaves are told apart by names of type `ι`. -/
inductive Sink (ι : Type)
  /-- A leaf that keeps every event. -/
  | memory (leaf : ι)
  /-- A leaf that prints events in one line each. -/
  | console (leaf : ι) (threshold : Level)
  /-- A leaf that prints events as records. -/
  | structured (leaf : ι) (threshold : Level)
  /-- A fan over several targets. -/
  | fan (threshold : Level) (targets : List (Sink ι))

namespace Sink

variable {ι : Type}

mutual

/-- The leaves that an event of a level reaches, in order; a leaf occurs as often as in the tree. -/
def reached (level : Level) : Sink ι → List ι
  | memory leaf => [leaf]
  | console leaf threshold => if threshold.admits level then [leaf] else []
  | structured leaf threshold => if threshold.admits level then [leaf] else []
  | fan threshold targets => if threshold.admits level then reachedAll level targets else []

/-- The leaves that an event of a level reaches in several trees. -/
def reachedAll (level : Level) : List (Sink ι) → List ι
  | [] => []
  | s :: ss => reached level s ++ reachedAll level ss

end

end Sink

/-- A tree of sinks behind a threshold. -/
structure Service (ι : Type) where
  /-- What events are handed on. -/
  threshold : Level
  /-- The tree. -/
  sink : Sink ι

namespace Service

variable {ι : Type}

/-- Whether events of a level are handed on. -/
def shouldLog (s : Service ι) (level : Level) : Bool := s.threshold.admits level

/-- The leaves that an event reaches. -/
def reached (s : Service ι) (e : Event) : List ι :=
  if s.shouldLog e.level then s.sink.reached e.level else []

end Service

/-! ### A bounded memory -/

/-- The newest events, up to a bound. -/
structure Memory where
  /-- The number of events that are kept. -/
  capacity : Nat
  /-- The events, oldest first. -/
  events : Array Event

namespace Memory

/-- A memory without events. -/
def empty (capacity : Nat) : Memory := ⟨capacity, #[]⟩

/-- Keeps an event; the oldest ones make room. -/
def log (m : Memory) (e : Event) : Memory :=
  if m.capacity ≤ m.events.size then
    { m with events := (m.events.drop (m.events.size - m.capacity + 1)).push e }
  else { m with events := m.events.push e }

/-- Forgets all events. -/
def clear (m : Memory) : Memory := { m with events := #[] }

/-- The number of events. -/
def size (m : Memory) : Nat := m.events.size

/-- The failures, oldest first. -/
def errors (m : Memory) : Array Event := m.events.filter Event.isError

/-- The warnings, oldest first. -/
def warnings (m : Memory) : Array Event := m.events.filter Event.isWarning

/-- Whether a failure with a code is kept. -/
def hasError (m : Memory) (c : Code) : Bool := m.events.any fun e => e.isError && e.code == c

end Memory

end Drac.Log
