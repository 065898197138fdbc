import Drac.Json.Reader

/-!
# Limits

The limits of the checker are fixed for each profile.  A profile is checked before it is used, and
its limits are then declared as constants.

## Main definitions

* `Limits`, `Profile` — the limits, and a named set of them.
* `Profile.development`, `Profile.production` — the two profiles.
* `LimitError`, `Limits.check` — what can be wrong with limits, and the first thing that is.
* `Limits.declarations` — the declarations of the limits as constants.
* `LogLimitError`, `Limits.checkLog` — the check that the log makes once more when it starts.
* `Limits.ofJson?` — limits from a record with a section for each part of the program.
-/

namespace Drac

/-- The limits of the checker. -/
structure Limits where
  /-- The largest size of a file in bytes. -/
  maxFileSize : Nat
  /-- The size in bytes above which a file is called large. -/
  largeFileThreshold : Nat
  /-- The largest number of lines of a file. -/
  maxLineCount : Nat
  /-- The number of illegal characters that are reported one by one. -/
  maxReportedIllegalChars : Nat
  /-- The largest number of open levels of nesting. -/
  maxParseDepth : Nat
  /-- The number of events that the memory of the log keeps. -/
  logBufferSize : Nat
  /-- The largest number of characters of a message. -/
  maxLogMessageLength : Nat
  deriving DecidableEq, Repr

/-- A named set of limits. -/
structure Profile where
  /-- The name. -/
  name : String
  /-- The limits. -/
  limits : Limits
  deriving DecidableEq, Repr

namespace Profile

/-- The profile for daily work. -/
def development : Profile :=
  ⟨"development", ⟨10485760, 1048576, 100000, 50, 200, 10000, 4096⟩⟩

/-- The stricter profile. -/
def production : Profile :=
  ⟨"production", ⟨5242880, 524288, 50000, 10, 128, 2000, 2048⟩⟩

/-- The profile with a given name. -/
def ofName? (name : String) : Option Profile :=
  [development, production].find? fun p => p.name == name

/-- Where the limits of the profile are written down. -/
def source (p : Profile) : String := "Generated from config/" ++ p.name ++ ".toml"

end Profile

/-! ### Checks -/

/-- What can be wrong with limits. -/
inductive LimitError
  /-- Files may be larger than any profile allows. -/
  | fileSize
  /-- No file is large, however large it is. -/
  | largeFileThreshold
  /-- Nesting is forbidden or not bounded enough. -/
  | parseDepth
  /-- The memory of the log is too small or too large. -/
  | logBufferSize
  /-- Messages may have no character. -/
  | logMessageLength
  /-- Files may be larger than the stricter profile allows. -/
  | productionFileSize
  deriving DecidableEq, Repr

/-- An error in words. -/
def LimitError.message : LimitError → String
  | fileSize => "LIMITS: max_file_size exceeds absolute maximum"
  | largeFileThreshold => "LIMITS: large_file_threshold must not exceed max_file_size"
  | parseDepth => "LIMITS: max_parse_depth must be within 1..=500"
  | logBufferSize => "LIMITS: log_buffer_size must be within 100..=100000"
  | logMessageLength => "LIMITS: max_log_message_length cannot be zero"
  | productionFileSize => "PRODUCTION: max_file_size too high for production"

namespace Limits

/-- The first thing that is wrong with the limits of a profile. -/
def check (l : Limits) (profile : String) : Except LimitError Unit :=
  if 1000000000 < l.maxFileSize then .error .fileSize
  else if l.maxFileSize < l.largeFileThreshold then .error .largeFileThreshold
  else if l.maxParseDepth = 0 ∨ 500 < l.maxParseDepth then .error .parseDepth
  else if l.logBufferSize < 100 ∨ 100000 < l.logBufferSize then .error .logBufferSize
  else if l.maxLogMessageLength = 0 then .error .logMessageLength
  else if profile = "production" ∧ 50000000 < l.maxFileSize then .error .productionFileSize
  else .ok ()

end Limits

/-- What the log refuses to start with. -/
inductive LogLimitError
  /-- A memory for more events than allowed. -/
  | bufferTooLarge (size : Nat)
  /-- A memory for fewer events than needed. -/
  | bufferTooSmall (size : Nat)
  /-- Messages without a character. -/
  | emptyMessages
  deriving DecidableEq, Repr

/-- An error in words. -/
def LogLimitError.message : LogLimitError → String
  | bufferTooLarge n => "Log buffer size too large: " ++ toString n
  | bufferTooSmall n => "Log buffer size too small: " ++ toString n
  | emptyMessages => "Max log message length cannot be zero"

namespace Limits

/-- The check that the log makes when it starts. -/
def checkLog (l : Limits) : Except LogLimitError Unit :=
  if 100000 < l.logBufferSize then .error (.bufferTooLarge l.logBufferSize)
  else if l.logBufferSize < 100 then .error (.bufferTooSmall l.logBufferSize)
  else if l.maxLogMessageLength = 0 then .error .emptyMessages
  else .ok ()

/-! ### Declarations -/

/-- The declaration of one limit. -/
def declaration (name type : String) (value : Nat) : String :=
  "        pub const " ++ name ++ ": " ++ type ++ " = " ++ toString value ++ ";\n"

/-- The declarations of the limits of one part of the program. -/
def declarationGroup (name : String) (declarations : List String) : String :=
  "    pub mod " ++ name ++ " \x7b\n" ++ String.join declarations ++ "    \x7d\n"

/-- The declarations of all limits, under a heading that names the profile. -/
def declarations (l : Limits) (profile : String) : String :=
  "\n// Generated compile-time constants from TOML configuration\n// Profile: " ++ profile ++
    "\n// DO NOT EDIT - Generated by build.rs\n\npub mod compile_time \x7b\n" ++
    "\n".intercalate
      [declarationGroup "file_processing"
          [declaration "MAX_FILE_SIZE" "u64" l.maxFileSize,
            declaration "LARGE_FILE_THRESHOLD" "u64" l.largeFileThreshold,
            declaration "MAX_LINE_COUNT_FOR_ANALYSIS" "usize" l.maxLineCount],
        declarationGroup "lexical"
          [declaration "MAX_REPORTED_ILLEGAL_CHARS" "usize" l.maxReportedIllegalChars],
        declarationGroup "syntax" [declaration "MAX_PARSE_DEPTH" "usize" l.maxParseDepth],
        declarationGroup "logging"
          [declaration "LOG_BUFFER_SIZE" "usize" l.logBufferSize,
            declaration "MAX_LOG_MESSAGE_LENGTH" "usize" l.maxLogMessageLength]] ++
    "\x7d\n"

/-! ### Reading -/

/-- Limits from a record with a section for each part of the program. -/
def ofJson? (text : String) : Option Limits := do
  let [some files, some lexical, some syntactic, some logging] ←
    Json.fields? ["file_processing", "lexical", "syntax", "logging"] text.toList | none
  let [some size, some large, some lines] ← Json.fields?
    ["max_file_size", "large_file_threshold", "max_line_count_for_analysis"] files | none
  let [some illegal] ← Json.fields? ["max_reported_illegal_chars"] lexical | none
  let [some depth] ← Json.fields? ["max_parse_depth"] syntactic | none
  let [some buffer, some message] ←
    Json.fields? ["log_buffer_size", "max_log_message_length"] logging | none
  return ⟨← Json.natOf? size, ← Json.natOf? large, ← Json.natOf? lines, ← Json.natOf? illegal,
    ← Json.natOf? depth, ← Json.natOf? buffer, ← Json.natOf? message⟩

end Limits

end Drac
