import Drac.Lexer
import Drac.Limits
import Drac.Log.Journal
import Drac.Syntax.Grammar

/-!
# Starting up

Before any work is done the log is started and every part of the program checks its tables.

## Main definitions

* `StartError` — why the program did not start.
* `Startup.log`, `files`, `lexer`, `syntactic`, `all` — the checks of the parts.
* `Lexer.Rule.checkTable` — what the table of the lexer must be like.
-/

namespace Drac

open Log (Event Code Logged)

/-- Why the program did not start. -/
inductive StartError
  /-- The limits of the log are not usable. -/
  | logLimits (e : LogLimitError)
  /-- A code is not registered. -/
  | missingCode (c : Code)
  /-- A code of the lexer is not registered. -/
  | missingLexerCode (c : Code)
  /-- The last rule of the lexer does not catch all that is left. -/
  | noCatchAll
  /-- A reserved word has no category. -/
  | strayWord (word : String)
  /-- The user's choices about the log were made before. -/
  | preferencesAlreadySet
  /-- The log was started before. -/
  | logAlreadyStarted
  deriving DecidableEq, Repr

/-- An error in words. -/
def StartError.message : StartError → String
  | logLimits e => "Configuration validation failed: " ++ e.message
  | missingCode c => "Missing metadata for error code: " ++ c.text
  | missingLexerCode c => "Lexical code " ++ c.text ++ " not found in metadata registry"
  | noCatchAll => "Lexical rule table must end with the catch-all rule"
  | strayWord w => "Reserved word '" ++ w ++ "' has no keyword category"
  | preferencesAlreadySet => "Runtime preferences already initialized"
  | logAlreadyStarted => "Global logger already initialized"

/-- Whether all listed codes are registered. -/
def checkCodes (codes : List Code) : Except StartError Unit :=
  match Code.firstMissing? codes with
  | none => .ok ()
  | some c => .error (.missingCode c)

/-- Whether the last rule of the lexer catches all that is left and every reserved word has a
category of its own. -/
def Lexer.Rule.checkTable : Except StartError Unit :=
  if (Rule.table.getLast?.map Rule.kind) ≠ some .illegal then .error .noCatchAll
  else
    match Category.reservedWords.find? fun w =>
        !((Category.ofReservedWord? w).any fun c => c.isKeyword || c.isLiteral) with
    | some w => .error (.strayWord w)
    | none => .ok ()

namespace Startup

/-- Writes an event if a check has succeeded. -/
def confirm (check : Except StartError Unit) (e : Event) : Logged (Except StartError Unit) := do
  match check with
  | .error err => return .error err
  | .ok _ =>
    Logged.record e
    return .ok ()

/-- What the log checks before it is started. -/
def checkLog (limits : Limits) : Except StartError Unit :=
  match limits.checkLog with
  | .error e => .error (.logLimits e)
  | .ok _ => checkCodes [.internalError, .fileNotFound, .illegalCharacter, .unexpectedToken]

/-- Starts the log. -/
def log (limits : Limits) : Logged (Except StartError Unit) := do
  match checkLog limits with
  | .error e => return .error e
  | .ok _ =>
    Logged.recordBare (Event.success .started "Global logging system initialized")
    return .ok ()

/-- The check of reading files. -/
def files (limits : Limits) : Logged (Except StartError Unit) :=
  confirm
    (checkCodes [.fileNotFound, .invalidExtension, .fileTooLarge, .permissionDenied,
      .invalidEncoding, .readFailure, .invalidPath])
    ((Event.debug "File processor compile-time configuration loaded").attachAll
      [("max_file_size", toString limits.maxFileSize),
        ("large_file_threshold", toString limits.largeFileThreshold),
        ("max_line_count", toString limits.maxLineCount)])

/-- What the lexer checks. -/
def checkLexer : Except StartError Unit :=
  match Lexer.Rule.checkTable with
  | .error e => .error e
  | .ok _ =>
    match Code.firstMissing? [.illegalCharacter, .illegalCharacterLimit] with
    | some c => .error (.missingLexerCode c)
    | none => .ok ()

/-- The check of the lexer. -/
def lexer (limits : Limits) : Logged (Except StartError Unit) :=
  confirm checkLexer
    ((Event.debug "Lexical analysis initialized").attachAll
      [("rules", toString Lexer.Rule.table.length),
        ("max_reported_illegal_chars", toString limits.maxReportedIllegalChars)])

/-- The check of the recognizer. -/
def syntactic (limits : Limits) : Logged (Except StartError Unit) :=
  confirm (checkCodes [.unexpectedToken, .unexpectedEnd, .nestingDepth])
    ((Event.debug "Syntax analysis initialized").attachAll
      [("statement_first_set", Syntax.First.statement.display),
        ("max_parse_depth", toString limits.maxParseDepth)])

/-- The checks of all parts, of which the first failure counts. -/
def all (profile : Profile) : Logged (Except StartError Unit) := do
  let limits := profile.limits
  Logged.record (Event.debug "Validating pipeline configuration")
  match ← files limits with
  | .error e => return .error e
  | .ok _ =>
  match ← lexer limits with
  | .error e => return .error e
  | .ok _ =>
  match ← syntactic limits with
  | .error e => return .error e
  | .ok _ =>
    Logged.record
      ((Event.success .started "Pipeline validation succeeded").attachAll
        [("stages_validated", "3"), ("config_source", profile.source)])
    return .ok ()

end Startup

end Drac
