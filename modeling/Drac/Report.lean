import Drac.Analysis
import Drac.File.Source
import Drac.Token.Record

/-!
# Reports

## Main definitions

* `Failure` — why a check did not succeed.
* `ErrorReport` — a failure as a record.
* `Checked`, `CheckReport` — a file that was checked, and the result of a check as a record.
-/

namespace Drac

open Log (Code)
open Syntax (SyntaxError)

/-! ### Failures -/

/-- Why a check did not succeed. -/
inductive Failure
  /-- The file was not read. -/
  | unreadable (e : FileError)
  /-- The text was not recognized. -/
  | rejected (e : SyntaxError)
  /-- The program itself is at fault. -/
  | internal (reason : String)
  deriving DecidableEq, Repr

namespace Failure

/-- The code of a failure. -/
def code : Failure → Code
  | unreadable e => e.code
  | rejected e => e.code
  | internal _ => .internalError

/-- A failure in words. -/
def message : Failure → String
  | unreadable e => "File processing failed: " ++ e.message
  | rejected e => "Syntax analysis failed: " ++ e.message
  | internal reason => "Pipeline error: " ++ reason

/-- The syntax error, if the file was read. -/
def syntaxError? : Failure → Option SyntaxError
  | rejected e => some e
  | _ => none

end Failure

/-- A failure as a record. -/
structure ErrorReport where
  /-- The code. -/
  code : Code
  /-- The failure in words. -/
  message : String
  /-- Where the text was not recognized. -/
  position : Option Position
  /-- What would have fitted there, in declaration order. -/
  expected : List Category
  /-- What was found there. -/
  found : Option Category
  deriving DecidableEq, Repr

namespace ErrorReport

/-- The report of a syntax error. -/
def ofSyntaxError (e : SyntaxError) : ErrorReport where
  code := e.code
  message := e.message
  position := some e.position
  expected := (e.expected?.map Syntax.Expected.members).getD []
  found := some e.found.category

/-- The report of a failure. -/
def ofFailure : Failure → ErrorReport
  | .rejected e => ofSyntaxError e
  | f => ⟨f.code, f.message, none, [], none⟩

/-- A report as a record; what is not known is left out. -/
def toJson (r : ErrorReport) : Json :=
  .object <|
    [("code", .string r.code.text), ("message", .string r.message)] ++
    (match r.position with
      | none => []
      | some p => [("position", p.toJson)]) ++
    [("expected", .array (r.expected.map fun c => .string c.name))] ++
    (match r.found with
      | none => []
      | some c => [("found", .string c.name)])

end ErrorReport

/-! ### Results -/

/-- A file that was read and recognized. -/
structure Checked where
  /-- What is known about the file. -/
  metadata : FileMetadata
  /-- What its text consists of. -/
  analysis : Analysis
  deriving DecidableEq, Repr

/-- The result of checking a file, as a record. -/
structure CheckReport where
  /-- The path of the file, as it was given. -/
  file : String
  /-- The result. -/
  result : Except Failure Checked

namespace CheckReport

/-- Whether the file was read and recognized. -/
def accepted (r : CheckReport) : Bool :=
  match r.result with
  | .ok _ => true
  | .error _ => false

/-- The members of a report that do not depend on the time taken. -/
def members (r : CheckReport) : List (String × Json) :=
  [("file", .string r.file), ("accepted", .bool r.accepted)] ++
    match r.result with
    | .ok c =>
      [("token_count", .ofNat c.analysis.tokenCount),
        ("lexical_metrics", c.analysis.metrics.toJson)]
    | .error f => [("error", (ErrorReport.ofFailure f).toJson)]

/-- A report as a record.  No clock is read, so no time has passed. -/
def toJson (r : CheckReport) : Json := .object (r.members ++ [("duration_ms", .number "0.0")])

end CheckReport

end Drac
