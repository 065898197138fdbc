import Drac.File.Error
import Drac.File.Size
import Drac.Limits
import Drac.Settings
import Drac.Text.Lines
import Drac.Text.Utf8

/-!
# Reading source files

A path is probed once, by calls to the file system that may fail.  What is found there is admitted if
it is a file that is not too large, has the extension if that is asked for, can be read, is text, and
has not too many lines; the first condition that fails is the error.

## Main definitions

* `Probe` — what there is at a path, as far as the calls to the file system tell.
* `File.extension?` — the extension of a file name.
* `FileMetadata`, `SourceFile` — what is known about a file, and a file that was read.
* `Probe.found?` — what is known about a file before it is read.
* `SourceFile.read` — reading a file.
-/

namespace Drac

open Log (Event Code Logged)

/-- What there is at a path.  The calls are made in this order: what the path leads to, its links, the
metadata of the file, its bytes. -/
inductive Probe
  /-- Nothing, or something that cannot be looked at. -/
  | missing
  /-- Something other than a file. -/
  | notFile
  /-- A file, but the links on its path were not resolved. -/
  | unresolved (failure : IoFailure)
  /-- A file, with its path when all links are resolved, but its metadata were not given. -/
  | unmeasured (path : String) (failure : IoFailure)
  /-- A file with its path and its size, but its bytes were not given. -/
  | unreadable (path : String) (size : Nat) (failure : IoFailure)
  /-- A file, with its path when all links are resolved. -/
  | file (path : String) (bytes : ByteArray)

/-! ### Extensions -/

namespace File

/-- The extension of a file name: what follows its last dot, if anything precedes that dot. -/
def extension? (name : String) : Option String :=
  let back := name.toList.reverse
  match back.dropWhile (· != '.') with
  | '.' :: _ :: _ => some (String.ofList (back.takeWhile (· != '.')).reverse)
  | _ => none

/-- The last part of a path. -/
def fileName (path : String) : String :=
  String.ofList (path.toList.reverse.takeWhile (· != '/')).reverse

/-- The extension of source files. -/
def sourceExtension : String := "drac"

end File

/-! ### Files -/

/-- What is known about a file. -/
structure FileMetadata where
  /-- Its path when all links are resolved. -/
  path : String
  /-- Its size in bytes. -/
  size : Nat
  /-- Its extension in lower case, if it has one. -/
  extension : Option String
  /-- Its number of lines. -/
  lineCount : Nat
  deriving DecidableEq, Repr

namespace FileMetadata

/-- Whether the file has the extension of source files. -/
def isSource (m : FileMetadata) : Bool := m.extension == some File.sourceExtension

/-- The size for people. -/
def humanSize (m : FileMetadata) : String := File.humanSize m.size

/-- Whether the file is called large. -/
def isLarge (limits : Limits) (m : FileMetadata) : Bool := limits.largeFileThreshold < m.size

end FileMetadata

/-- A file that was read. -/
structure SourceFile where
  /-- Its text. -/
  text : String
  /-- What is known about it. -/
  metadata : FileMetadata
  deriving DecidableEq, Repr

namespace SourceFile

/-- Whether something is the case, in words. -/
def truth (b : Bool) : String := if b then "true" else "false"

/-- The failure of reading a file: it is written to the journal, with details, and returned. -/
def fail {α : Type} (error : FileError) (message : String) (details : List (String × String)) :
    Logged (Except FileError α) := do
  Logged.record ((Event.error error.code message).attachAll details)
  return .error error

/-- The detail that is logged once the metadata is known. -/
def metadataEvent (limits : Limits) (m : FileMetadata) : Event :=
  (Event.debug "File metadata collected").attachAll
    [("size_bytes", toString m.size), ("extension", m.extension.getD "none"),
      ("is_drac", truth m.isSource), ("is_large_file", truth (m.isLarge limits))]

/-- What is logged about a file that was read.  No clock is read, so no time has passed. -/
def readEvent (limits : Limits) (settings : FileSettings) (path : String) (f : SourceFile) :
    Event :=
  let m := f.metadata
  if settings.logPerformance then
    (Event.success .fileRead "File processed successfully with performance metrics").attachAll
      [("file", path), ("size_bytes", toString m.size), ("size_human", m.humanSize),
        ("lines", toString m.lineCount), ("chars", toString f.text.length),
        ("duration_ms", "0.00"), ("chars_per_ms", "0.00"),
        ("is_large_file", truth (m.isLarge limits))]
  else
    (Event.success .fileRead "File processed successfully").attachAll
      [("file", path), ("lines", toString m.lineCount), ("duration_ms", "0.00")]

/-- The failure of a call to the file system, while something was to be done with `resolved`. -/
def failIo {α : Type} (failure : IoFailure) (resolved action message : String)
    (details : List (String × String)) : Logged (Except FileError α) :=
  fail (.ofIo failure resolved action) message (details ++ [("io_error", failure.reason)])

/-- What is known about a file before it is read. -/
def describe (path : String) (size : Nat) : FileMetadata where
  path := path
  size := size
  extension := (File.extension? (File.fileName path)).map Text.lowercase
  lineCount := 0

/-- Reads the text of a file whose metadata is known. -/
def decode (limits : Limits) (settings : FileSettings) (path : String) (m : FileMetadata)
    (bytes : ByteArray) : Logged (Except FileError SourceFile) := do
  match String.fromUTF8? bytes with
  | none =>
    let valid := Text.validUpTo bytes
    fail (.invalidEncoding m.path valid) "Invalid UTF-8 encoding in file"
      [("file", path), ("valid_up_to", toString valid)]
  | some text =>
    let lines := Text.lineCount text
    if limits.maxLineCount < lines then
      fail (.tooManyLines lines limits.maxLineCount) "File exceeds maximum line count"
        [("file", path), ("lines", toString lines), ("max_lines", toString limits.maxLineCount)]
    else
      let f : SourceFile := ⟨text, { m with lineCount := lines }⟩
      Logged.record (readEvent limits settings path f)
      return .ok f

/-- Reads a file that was found: its size and its extension are checked first, and only then whether
its bytes were given. -/
def readFound (limits : Limits) (settings : FileSettings) (path : String) (m : FileMetadata)
    (contents : Except IoFailure ByteArray) : Logged (Except FileError SourceFile) := do
  Logged.record (metadataEvent limits m)
  if limits.maxFileSize < m.size then
    fail (.tooLarge m.size limits.maxFileSize) "File exceeds compile-time maximum size limit"
      [("file", path), ("size_human", m.humanSize),
        ("limit_human", File.humanSize limits.maxFileSize)]
  else if settings.requireExtension && !m.isSource then
    fail (.invalidExtension m.extension) "File does not have required .drac extension"
      [("file", path), ("extension", m.extension.getD "none")]
  else
    match contents with
    | .error failure => failIo failure m.path "read file" "I/O error reading file" [("file", path)]
    | .ok bytes => decode limits settings path m bytes

/-- Reads the file at a path. -/
def read (limits : Limits) (settings : FileSettings) (disk : String → Probe) (path : String) :
    Logged (Except FileError SourceFile) := do
  Logged.record ((Event.debug "Starting file processing").attach "file" path)
  if path.isEmpty then fail (.invalidPath "") "Empty file path provided" []
  else
    match disk path with
    | .missing => fail (.notFound path) "File not found" [("path", path)]
    | .notFile => fail (.invalidPath path) "Path is not a file" [("path", path)]
    | .unresolved failure =>
      failIo failure path "resolve path" "Failed to canonicalize path" [("path", path)]
    | .unmeasured resolved failure =>
      failIo failure resolved "read metadata for" "Failed to read file metadata" [("path", resolved)]
    | .unreadable resolved size failure =>
      readFound limits settings path (describe resolved size) (.error failure)
    | .file resolved bytes =>
      readFound limits settings path (describe resolved bytes.size) (.ok bytes)

end SourceFile

/-- What is known about a file that was found, before it is read. -/
def Probe.found? : Probe → Option FileMetadata
  | missing | notFile | unresolved _ | unmeasured .. => none
  | unreadable resolved size _ => some (SourceFile.describe resolved size)
  | file resolved bytes => some (SourceFile.describe resolved bytes.size)

end Drac
