import Drac.Log.Code
import Drac.Text.Escape

/-!
# Errors of reading files

## Main definitions

* `IoFailure` — a call to the file system that failed.
* `FileError` — why a file was not read.
* `FileError.ofIo` — the error for a call that failed.
* `FileError.message`, `FileError.code` — the wording and the code of an error.
-/

namespace Drac

open Log (Code)

/-- A call to the file system that failed. -/
structure IoFailure where
  /-- Whether it was not permitted. -/
  denied : Bool
  /-- What the system says about it. -/
  reason : String
  deriving DecidableEq, Repr

/-- Why a file was not read. -/
inductive FileError
  /-- There is nothing at the path. -/
  | notFound (path : String)
  /-- The name has another extension than the one that was asked for. -/
  | invalidExtension (extension : Option String)
  /-- The file has too many bytes. -/
  | tooLarge (size limit : Nat)
  /-- The file has too many lines. -/
  | tooManyLines (lines limit : Nat)
  /-- The file may not be read. -/
  | permissionDenied (path : String)
  /-- The bytes encode no text. -/
  | invalidEncoding (path : String) (validUpTo : Nat)
  /-- Reading failed. -/
  | readFailure (reason : String)
  /-- There is something at the path that is no file, or the path is empty. -/
  | invalidPath (path : String)
  deriving DecidableEq, Repr

namespace FileError

/-- The error for a call that failed; `action` says what it was to do with the path. -/
def ofIo (failure : IoFailure) (path action : String) : FileError :=
  if failure.denied then .permissionDenied path
  else .readFailure ("Failed to " ++ action ++ " '" ++ path ++ "': " ++ failure.reason)

/-- The code of an error. -/
def code : FileError → Code
  | notFound _ => .fileNotFound
  | invalidExtension _ => .invalidExtension
  | tooLarge .. | tooManyLines .. => .fileTooLarge
  | permissionDenied _ => .permissionDenied
  | invalidEncoding .. => .invalidEncoding
  | readFailure _ => .readFailure
  | invalidPath _ => .invalidPath

/-- An extension that may be missing. -/
def showExtension : Option String → String
  | none => "None"
  | some s => "Some(" ++ Text.doubleQuoted s ++ ")"

/-- An error in words. -/
def message : FileError → String
  | notFound path => "File not found: " ++ path
  | invalidExtension e => "Invalid file extension: expected .drac, found " ++ showExtension e
  | tooLarge size limit =>
    "File too large: " ++ toString size ++ " bytes (max: " ++ toString limit ++ ")"
  | tooManyLines lines limit =>
    "File exceeds maximum line count: " ++ toString lines ++ " (max: " ++ toString limit ++ ")"
  | permissionDenied path => "Permission denied: " ++ path
  | invalidEncoding path n => "Invalid UTF-8 in " ++ path ++ " at byte " ++ toString n
  | readFailure reason => "I/O error reading file: " ++ reason
  | invalidPath path => "Invalid file path: " ++ path

instance : ToString FileError := ⟨message⟩

end FileError

end Drac
