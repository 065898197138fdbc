import Drac.Command

/-!
# The program

Reads the environment, looks at the file that the first argument names, and prints what the run of
the command gives.

## Main definitions

* `IoFailure.ofError`, `attempt` — a call to the file system that failed, and one that may fail.
* `probeDisk` — what there is at a path of the disk.
* `main` — the program.
-/

namespace Drac

/-- The name of the program. -/
def programName : String := "drac_compiler"

/-- An error of the system, in its words and with its number. -/
def systemError (details : String) (number : UInt32) : String :=
  details ++ " (os error " ++ toString number ++ ")"

/-- A call that failed. -/
def IoFailure.ofError : IO.Error → IoFailure
  | .permissionDenied _ number details => ⟨true, systemError details number⟩
  | .noFileOrDirectory _ number details | .inappropriateType _ number details
  | .resourceExhausted _ number details | .interrupted _ number details
  | .invalidArgument _ number details | .noSuchThing _ number details
  | .hardwareFault number details | .resourceBusy number details
  | .resourceVanished number details | .illegalOperation number details
  | .otherError number details => ⟨false, systemError details number⟩
  | e => ⟨false, toString e⟩

/-- What a call to the file system gives, or why it failed. -/
def attempt {α : Type} (call : IO α) : IO (Except IoFailure α) := do
  try return .ok (← call)
  catch e => return .error (.ofError e)

/-- What there is at a path of the disk. -/
def probeDisk (path : String) : IO Probe := do
  let given := System.mkFilePath [path]
  let .ok found ← attempt given.metadata | return .missing
  let .file := found.type | return .notFile
  match ← attempt (IO.FS.realPath given) with
  | .error failure => return .unresolved failure
  | .ok resolved =>
    match ← attempt resolved.metadata with
    | .error failure => return .unmeasured resolved.toString failure
    | .ok m =>
      match ← attempt (IO.FS.readBinFile resolved) with
      | .error failure => return .unreadable resolved.toString m.byteSize.toNat failure
      | .ok bytes => return .file resolved.toString bytes

/-- The values of the variables that make choices. -/
def readEnvironment : IO (List (String × String)) :=
  Settings.environmentNames.filterMapM fun name => return (← IO.getEnv name).map fun v => (name, v)

/-- Prints a line for people who watch the run. -/
def Command.Line.print : Command.Line → IO Unit
  | .text s => IO.eprintln s
  | .event e => IO.eprintln e.toJson.compact

end Drac

/-- Runs the command. -/
def main (args : List String) : IO UInt32 := do
  let env ← Drac.readEnvironment
  let probe ← match args with
    | [] => pure Drac.Probe.missing
    | path :: _ => Drac.probeDisk path
  let result := Drac.Command.run .development Drac.programName args (fun name => env.lookup name)
    fun _ => probe
  IO.print result.outputText
  result.errors.forM Drac.Command.Line.print
  return UInt32.ofNat result.status
