import Drac.Check
import Drac.Log.Structured
import Drac.Startup

/-!
# The command line

A run of the command is a function of its arguments, its environment and the files that it can
see.

## Main definitions

* `Command.Options`, `Command.readOptions` — what the arguments after the path ask for.
* `Command.Line`, `Command.Result` — what a run prints, and how it ends.
* `Command.run` — a run.
-/

namespace Drac.Command

open Log (Event Journal Logged)

/-! ### What a run prints -/

/-- What is printed for people who watch the run. -/
inductive Line
  /-- A line of text. -/
  | text (s : String)
  /-- An event as a record. -/
  | event (e : Event)
  deriving DecidableEq, Repr

/-- What a run leaves behind. -/
structure Result where
  /-- The exit status. -/
  status : Nat
  /-- The lines of the result. -/
  output : List String
  /-- The lines for people who watch the run. -/
  errors : List Line
  deriving Repr

/-- How a run can end before it prints anything more. -/
structure Session where
  /-- The choices of the user. -/
  settings : Settings
  /-- The journal, whose events have not been printed. -/
  journal : Journal
  /-- The lines of the result. -/
  output : Array String
  /-- The lines for people who watch the run. -/
  errors : Array Line

/-- A part of a run. -/
abbrev Run := StateM Session

namespace Run

/-- Prints a line of the result. -/
def print (s : String) : Run Unit := modify fun r => { r with output := r.output.push s }

/-- Prints a line for people who watch the run. -/
def warn (s : String) : Run Unit := modify fun r => { r with errors := r.errors.push (.text s) }

/-- How an event is printed. -/
def lineOf (settings : LogSettings) (e : Event) : Line :=
  if settings.structured then .event e else .text e.display

/-- Does something that is logged, and prints what was logged if the user asked for it. -/
def logged {α : Type} (body : Logged α) : Run α := fun r =>
  let (a, j) := body.run r.journal
  let lines := if r.settings.log.console then j.events.map (lineOf r.settings.log) else #[]
  (a, { r with journal := { j with events := #[] }, errors := r.errors ++ lines })

end Run

/-! ### Arguments -/

/-- What the arguments after the path ask for. -/
structure Options where
  /-- List the tokens instead of checking. -/
  tokens : Bool
  /-- Print records. -/
  json : Bool
  /-- Print nothing about success. -/
  quiet : Bool
  deriving DecidableEq, Repr

/-- What one more argument asks for; an argument that is not known is passed over with a warning. -/
def readOption (o : Options) (arg : String) : Run Options :=
  match arg with
  | "--tokens" => return { o with tokens := true }
  | "--json" => return { o with json := true }
  | "--quiet" => return { o with quiet := true }
  | _ => do
    Run.warn ("Warning: Unknown option '" ++ arg ++ "'")
    return o

/-- What the arguments after the path ask for. -/
def readOptions (args : List String) : Run Options := args.foldlM readOption ⟨false, false, false⟩

/-- How the command is called. -/
def usage (program : String) : List String :=
  ["Usage: " ++ program ++ " <input.drac> [options]", "       " ++ program ++ " --help"]

/-- The explanation of the command. -/
def help (program : String) (profile : Profile) : List String :=
  ["Drac Compiler v0.1.0",
    "Tokenizer and LL(1) syntax checker for Drac source files",
    "",
    "USAGE:",
    "    " ++ program ++ " <input.drac> [options]",
    "",
    "OPTIONS:",
    "    --help      Show this help message",
    "    --tokens    Print the token stream instead of checking syntax",
    "    --json      Emit results and errors as JSON",
    "    --quiet     Print nothing on success",
    "",
    "OUTPUT:",
    "    Success: 'Syntax OK' (exit status 0)",
    "    Failure: the first syntax or file error (exit status 1)",
    "",
    "ENVIRONMENT:",
    "    DRAC_REQUIRE_DRAC_EXTENSION      Reject files without .drac extension",
    "    DRAC_LEXICAL_WARN_ILLEGAL_CHARS  Log illegal characters as warnings",
    "    DRAC_LOGGING_ENABLE_CONSOLE      Write log events to stderr",
    "    DRAC_LOGGING_USE_STRUCTURED      Write log events as JSON",
    "    DRAC_LOGGING_MIN_LEVEL           error | warning | info | debug",
    "",
    "BUILD:",
    "    " ++ profile.source]

/-! ### Runs -/

/-- Prints why a check did not succeed; a syntax error stands for itself. -/
def reportFailure (options : Options) (path : String) (f : Failure) : Run Unit :=
  if options.json then Run.print (CheckReport.toJson ⟨path, .error f⟩).pretty
  else
    match f.syntaxError? with
    | some e => Run.warn e.message
    | none => Run.warn f.message

/-- Lists the tokens of a file. -/
def runTokens (limits : Limits) (options : Options) (disk : String → Probe) (path : String) :
    Run Nat := do
  match ← Run.logged (dumpTokens limits (← get).settings.lexer disk path) with
  | .error f =>
    reportFailure options path f
    return 1
  | .ok tokens =>
    if options.json then Run.print (Json.array (tokens.toList.map Token.toJson)).pretty
    else tokens.forM fun t => Run.print t.display
    return 0

/-- Checks a file. -/
def runCheck (limits : Limits) (options : Options) (disk : String → Probe) (path : String) :
    Run Nat := do
  let settings := (← get).settings
  match ← Run.logged (checkFile limits settings.files settings.lexer disk path) with
  | .error f =>
    reportFailure options path f
    return 1
  | .ok c =>
    if options.json then Run.print (CheckReport.toJson ⟨path, .ok c⟩).pretty
    else if !options.quiet then Run.print "Syntax OK"
    return 0

/-- Does what the arguments ask for. -/
def runArguments (profile : Profile) (program : String) (disk : String → Probe) :
    List String → Run Nat
  | [] => do
    (usage program).forM Run.warn
    return 1
  | "--help" :: _ => do
    (help program profile).forM Run.print
    return 0
  | path :: args => do
    let options ← readOptions args
    if options.tokens then runTokens profile.limits options disk path
    else runCheck profile.limits options disk path

/-- Ends a run that could not start. -/
def failStart (e : StartError) : Run Nat := do
  Run.warn ("Error: " ++ Json.quoted e.message)
  return 1

/-- Starts the program and does what the arguments ask for. -/
def runAll (profile : Profile) (program : String) (args : List String) (disk : String → Probe) :
    Run Nat := do
  match ← Run.logged (Startup.log profile.limits) with
  | .error e => failStart e
  | .ok _ =>
  match ← Run.logged (Startup.all profile) with
  | .error e => failStart e
  | .ok _ => runArguments profile program disk args

/-- A run of the command. -/
def run (profile : Profile) (program : String) (args : List String)
    (env : String → Option String) (disk : String → Probe) : Result :=
  let settings := Settings.ofEnvironment env
  let journal := Journal.empty (settings.journalRules profile.limits.maxLogMessageLength)
  let (status, r) := (runAll profile program args disk).run ⟨settings, journal, #[], #[]⟩
  ⟨status, r.output.toList, r.errors.toList⟩

/-- The text of the result. -/
def Result.outputText (r : Result) : String := String.join (r.output.map (· ++ "\n"))

end Drac.Command
