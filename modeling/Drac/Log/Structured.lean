import Drac.Log.Event
import Drac.Token.Record

/-!
# Events as records

## Main definitions

* `Event.toJson` — an event with all that is registered about its code.
-/

namespace Drac.Log

/-- What is registered about the code of a failure. -/
def Code.toJson (c : Code) : Json :=
  .object
    [("recoverable", .bool c.recoverable), ("requires_halt", .bool c.requiresHalt),
      ("description", .string c.description), ("recommended_action", .string c.action)]

/-- An event as a record: a failure says what is known about it, a place and details are left out
where there are none. -/
def Event.toJson (e : Event) : Json :=
  .object <|
    [("level", .string e.level.name), ("code", .string e.code.text), ("message", .string e.message),
      ("category", .string e.code.area), ("severity", .string e.code.severity.name)] ++
    (if e.isError then [("error_metadata", e.code.toJson)] else []) ++
    (match e.position with
      | none => []
      | some p => [("position", p.toJson)]) ++
    (match e.context with
      | [] => []
      | ds => [("context", .object (ds.map fun d => (d.1, .string d.2)))])

end Drac.Log
