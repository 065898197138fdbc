import Drac.Log.Event

/-!
# The journal of a run

A journal keeps the events of a run that pass its threshold.  It also knows which file is being
worked on, and says so in every event if asked to.

## Main definitions

* `FileContext`, `Journal` — the file that is worked on, and the journal.
* `Journal.record` — one more event.
* `Logged` — a computation that may write to the journal.
* `Logged.withFile` — a computation during which a file is worked on.

## Main results

* `Journal.file_record` — writing does not change the file that is worked on.
-/

namespace Drac.Log

/-- The file that is worked on. -/
structure FileContext where
  /-- Its path, as it was given. -/
  path : String
  /-- Its number. -/
  id : Nat
  deriving DecidableEq, Repr

/-- How a journal is kept. -/
structure JournalRules where
  /-- What events are kept. -/
  threshold : Level
  /-- Whether events say which file is worked on. -/
  includeFile : Bool
  /-- The number of characters that a message may have. -/
  messageLimit : Nat
  deriving DecidableEq, Repr

/-- The events of a run so far. -/
structure Journal where
  /-- How the journal is kept. -/
  rules : JournalRules
  /-- The file that is worked on. -/
  file : Option FileContext
  /-- The events in order. -/
  events : Array Event

/-- The details that say which file is worked on. -/
def FileContext.details (f : FileContext) : List (String × String) :=
  [("file", f.path), ("file_id", toString f.id)]

namespace Journal

/-- The journal before the first event. -/
def empty (rules : JournalRules) : Journal := ⟨rules, none, #[]⟩

/-- An event as the journal keeps it, apart from the file. -/
def keep (j : Journal) (e : Event) : Journal :=
  let e := e.clipped j.rules.messageLimit
  if j.rules.threshold.admits e.level then { j with events := j.events.push e } else j

/-- One more event.  The file that is worked on replaces details of the same names. -/
def record (j : Journal) (e : Event) : Journal :=
  match j.rules.includeFile, j.file with
  | true, some f => j.keep (e.attachAll f.details)
  | _, _ => j.keep e

/-- More events, in order. -/
def recordAll (j : Journal) (es : Array Event) : Journal := es.foldl record j

@[simp] theorem file_keep (j : Journal) (e : Event) : (j.keep e).file = j.file := by
  simp only [keep]
  split <;> rfl

@[simp] theorem file_record (j : Journal) (e : Event) : (j.record e).file = j.file := by
  unfold record
  split <;> simp

end Journal

/-! ### Computations that write to the journal -/

/-- A computation that may write to the journal. -/
abbrev Logged := StateM Journal

namespace Logged

/-- Writes one event. -/
def record (e : Event) : Logged Unit := modify fun j => j.record e

/-- Writes an event that is about no file. -/
def recordBare (e : Event) : Logged Unit := modify fun j => j.keep e

/-- Writes events in order. -/
def recordAll (es : Array Event) : Logged Unit := modify fun j => j.recordAll es

/-- The file that is worked on. -/
def currentFile : Logged (Option FileContext) := return (← get).file

/-- Starts or ends the work on a file. -/
def setFile (f : Option FileContext) : Logged Unit := modify fun j => { j with file := f }

/-- Works on a file during a computation, and on no file after it. -/
def withFile {α : Type} (f : FileContext) (body : Logged α) : Logged α := do
  setFile (some f)
  let a ← body
  setFile none
  return a

end Logged

end Drac.Log
