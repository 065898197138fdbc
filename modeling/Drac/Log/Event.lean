import Drac.Log.Code
import Drac.Token

/-!
# Events of the log

## Main definitions

* `Level`, `Level.admits` — the four levels, and what passes a threshold.
* `Event` — one entry of the log.
* `Event.attach` — adds a detail to an event; a second value for the same name replaces the first.
* `Event.clipped` — bounds the length of the message.
* `Event.display` — an event in one line.
-/

namespace Drac.Log

/-! ### Levels -/

/-- How much an event matters. -/
inductive Level
  /-- Something failed. -/
  | error
  /-- Something is odd. -/
  | warning
  /-- Something was done. -/
  | info
  /-- A detail. -/
  | debug
  deriving DecidableEq, Repr, Inhabited

namespace Level

/-- The levels in order: what matters more comes first. -/
def rank : Level → Nat
  | error => 0
  | warning => 1
  | info => 2
  | debug => 3

/-- Whether a threshold lets a level pass. -/
def admits (threshold level : Level) : Bool := level.rank ≤ threshold.rank

@[simp] theorem admits_debug (l : Level) : debug.admits l = true := by cases l <;> rfl

@[simp] theorem admits_self (l : Level) : l.admits l = true := by cases l <;> rfl

/-- The name of a level in the log. -/
def name : Level → String
  | error => "ERROR"
  | warning => "WARN"
  | info => "INFO"
  | debug => "DEBUG"

end Level

/-! ### Events -/

/-- One entry of the log. -/
structure Event where
  /-- How much it matters. -/
  level : Level
  /-- Its code. -/
  code : Code
  /-- What happened. -/
  message : String
  /-- Where in the source it happened, if it has a place there. -/
  position : Option Position
  /-- Named details in the order in which they were attached. -/
  context : List (String × String)
  deriving DecidableEq, Repr, Inhabited

namespace Event

/-- A failure. -/
def error (code : Code) (message : String) : Event := ⟨.error, code, message, none, []⟩

/-- A warning, with a code of its own or without. -/
def warning (message : String) (code : Option Code) : Event :=
  ⟨.warning, code.getD .plainWarning, message, none, []⟩

/-- Something that was done. -/
def info (message : String) : Event := ⟨.info, .plainInfo, message, none, []⟩

/-- Something that was done and has a code of its own. -/
def success (code : Code) (message : String) : Event := ⟨.info, code, message, none, []⟩

/-- A detail. -/
def debug (message : String) : Event := ⟨.debug, .plainDebug, message, none, []⟩

/-- The event with a place in the source. -/
def located (e : Event) (p : Option Position) : Event := { e with position := p }

/-- Puts a value under a name, in the place of an earlier value of that name. -/
def putDetail (name value : String) : List (String × String) → List (String × String)
  | [] => [(name, value)]
  | d :: ds => if d.1 = name then (name, value) :: ds else d :: putDetail name value ds

/-- The event with one more detail; an earlier detail of the same name is replaced. -/
def attach (e : Event) (name value : String) : Event :=
  { e with context := putDetail name value e.context }

/-- The event with more details, the later ones last. -/
def attachAll (e : Event) (details : List (String × String)) : Event :=
  details.foldl (fun e d => e.attach d.1 d.2) e

@[simp] theorem level_attach (e : Event) (n v : String) : (e.attach n v).level = e.level := rfl

@[simp] theorem level_attachAll (e : Event) (ds : List (String × String)) :
    (e.attachAll ds).level = e.level := by
  induction ds generalizing e with
  | nil => rfl
  | cons d ds ih => exact ih (e.attach d.1 d.2)

/-- Whether the event is a failure. -/
def isError (e : Event) : Bool := e.level == .error

/-- Whether the event is a warning. -/
def isWarning (e : Event) : Bool := e.level == .warning

/-- A message of at most `limit` characters, with three dots where something was cut off. -/
def clip (limit : Nat) (message : String) : String :=
  if message.length ≤ limit then message
  else String.ofList (message.toList.take limit) ++ "..."

/-- The event with its message bounded. -/
def clipped (limit : Nat) (e : Event) : Event := { e with message := clip limit e.message }

/-- The event in one line: level, code, message and place. -/
def display (e : Event) : String :=
  "[" ++ e.level.name ++ "] " ++ e.code.text ++ " - " ++ e.message ++
    match e.position with
    | none => ""
    | some p => " at " ++ toString p.line ++ ":" ++ toString p.column

instance : ToString Event := ⟨display⟩

end Event

end Drac.Log
