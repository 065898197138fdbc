/-!
# Codes of reports

Every report carries a short code.  The codes of errors and warnings are registered with what a
reader should know about them; a code that is not registered has the properties of an unknown one.

## Main definitions

* `Severity`, `Code`, `CodeEntry` — a code and what is known about it.
* `Code.registry`, `Code.entry?` — the registered codes.
* `Code.severity`, `recoverable`, `requiresHalt`, `description`, `action`, `area` — the properties
  of a code, registered or not.
* `Code.firstMissing?` — the first of some codes that is not registered.
-/

namespace Drac.Log

/-- How bad a problem is. -/
inductive Severity
  /-- The program itself is at fault. -/
  | critical
  /-- The input cannot be used. -/
  | high
  /-- The input cannot be reached or is out of bounds. -/
  | medium
  /-- A remark. -/
  | low
  deriving DecidableEq, Repr

/-- The name of a severity. -/
def Severity.name : Severity → String
  | critical => "Critical"
  | high => "High"
  | medium => "Medium"
  | low => "Low"

/-- The code of a report. -/
structure Code where
  /-- The characters of the code. -/
  text : String
  deriving DecidableEq, Repr, Inhabited

instance : ToString Code := ⟨Code.text⟩

/-- What is registered about a code. -/
structure CodeEntry where
  /-- The code. -/
  code : Code
  /-- The part of the program that reports it. -/
  area : String
  /-- How bad the problem is. -/
  severity : Severity
  /-- Whether work can go on after it. -/
  recoverable : Bool
  /-- Whether the run must stop. -/
  requiresHalt : Bool
  /-- What the problem is. -/
  description : String
  /-- What to do about it. -/
  action : String
  deriving DecidableEq, Repr

namespace Code

/-! ### The codes -/

/-- A fault inside the program. -/
def internalError : Code := ⟨"ERR001"⟩
/-- The program could not start. -/
def startFailure : Code := ⟨"ERR002"⟩
/-- No file at a path. -/
def fileNotFound : Code := ⟨"E005"⟩
/-- A file name without the extension that was asked for. -/
def invalidExtension : Code := ⟨"E006"⟩
/-- A file with too many bytes or lines. -/
def fileTooLarge : Code := ⟨"E007"⟩
/-- A file that may not be read. -/
def permissionDenied : Code := ⟨"E009"⟩
/-- A file that is not text. -/
def invalidEncoding : Code := ⟨"E010"⟩
/-- A file that cannot be read. -/
def readFailure : Code := ⟨"E011"⟩
/-- A path that names no file. -/
def invalidPath : Code := ⟨"E012"⟩
/-- A character that starts no token. -/
def illegalCharacter : Code := ⟨"E020"⟩
/-- More such characters than are reported. -/
def illegalCharacterLimit : Code := ⟨"E021"⟩
/-- The input ends too early. -/
def unexpectedEnd : Code := ⟨"E040"⟩
/-- A token that does not fit. -/
def unexpectedToken : Code := ⟨"E050"⟩
/-- Blocks and expressions nested too deeply. -/
def nestingDepth : Code := ⟨"E087"⟩
/-- The program has started. -/
def started : Code := ⟨"I004"⟩
/-- A file has been read. -/
def fileRead : Code := ⟨"I006"⟩
/-- A file has been split into tokens. -/
def tokensListed : Code := ⟨"I020"⟩
/-- A source fits the grammar. -/
def syntaxAccepted : Code := ⟨"I041"⟩
/-- A file has been checked. -/
def checkDone : Code := ⟨"I090"⟩
/-- A warning without a code of its own. -/
def plainWarning : Code := ⟨"W000"⟩
/-- A remark without a code of its own. -/
def plainInfo : Code := ⟨"I000"⟩
/-- A detail without a code of its own. -/
def plainDebug : Code := ⟨"D000"⟩

/-! ### The registry -/

/-- The registered codes. -/
def registry : List CodeEntry :=
  [⟨internalError, "System", .critical, false, true, "Critical internal system error",
      "File a bug report with the input that triggered it"⟩,
    ⟨startFailure, "System", .critical, false, true, "System initialization failure",
      "Check configuration and environment variables"⟩,
    ⟨fileNotFound, "FileProcessing", .medium, false, true, "File not found at specified path",
      "Check file path and ensure file exists"⟩,
    ⟨invalidExtension, "FileProcessing", .low, true, false, "File does not have .drac extension",
      "Rename file with .drac extension or disable the extension check"⟩,
    ⟨fileTooLarge, "FileProcessing", .medium, false, true, "File exceeds maximum size limit",
      "Reduce file size or rebuild with a larger profile limit"⟩,
    ⟨permissionDenied, "FileProcessing", .medium, false, true, "Permission denied accessing file",
      "Check file permissions and user access rights"⟩,
    ⟨invalidEncoding, "FileProcessing", .medium, false, true, "File is not valid UTF-8",
      "Re-encode the source file as UTF-8"⟩,
    ⟨readFailure, "FileProcessing", .high, false, true, "I/O error while reading file",
      "Check disk health and file system state"⟩,
    ⟨invalidPath, "FileProcessing", .medium, false, true, "Invalid file path",
      "Provide a path to a regular file"⟩,
    ⟨illegalCharacter, "Lexical", .low, true, false, "Character does not start any token",
      "Remove or replace the character"⟩,
    ⟨illegalCharacterLimit, "Lexical", .low, true, false,
      "Too many illegal characters to report individually", "Check that the file is Drac source"⟩,
    ⟨unexpectedEnd, "Syntax", .high, true, true, "Input ended before the program was complete",
      "Close all open blocks, parentheses and statements"⟩,
    ⟨unexpectedToken, "Syntax", .high, true, true, "Token does not fit the grammar at this point",
      "Check the token against the expected categories"⟩,
    ⟨nestingDepth, "Syntax", .high, false, true, "Maximum nesting depth exceeded",
      "Reduce nesting of blocks and parenthesized expressions"⟩]

/-- What is registered about a code. -/
def entry? (c : Code) : Option CodeEntry := registry.find? fun e => e.code == c

/-- Whether a code is registered. -/
def isKnown (c : Code) : Bool := c.entry?.isSome

/-- How bad the problem is; medium where nothing is known. -/
def severity (c : Code) : Severity := (c.entry?.map CodeEntry.severity).getD .medium

/-- Whether work can go on; it can where nothing is known. -/
def recoverable (c : Code) : Bool := (c.entry?.map CodeEntry.recoverable).getD true

/-- Whether the run must stop; it need not where nothing is known. -/
def requiresHalt (c : Code) : Bool := (c.entry?.map CodeEntry.requiresHalt).getD false

/-- What the problem is. -/
def description (c : Code) : String := (c.entry?.map CodeEntry.description).getD "Unknown error"

/-- What to do about the problem. -/
def action (c : Code) : String :=
  (c.entry?.map CodeEntry.action).getD "No specific action available"

/-- The part of the program that reports the code. -/
def area (c : Code) : String := (c.entry?.map CodeEntry.area).getD "Unknown"

/-- The first of the listed codes that is not registered. -/
def firstMissing? (cs : List Code) : Option Code := cs.find? fun c => !c.isKnown

end Code

end Drac.Log
