import Drac.Json.Reader
import Drac.Lexer
import Drac.Log.Journal
import Drac.Text.Lowercase

/-!
# Settings

What the user may choose, from the environment or from a record.

## Main definitions

* `FileSettings`, `LogSettings`, `Settings` — what the user may choose.
* `Level.ofSetting?` — the level that a setting names.
* `Settings.ofEnvironment` — the choices that the environment makes.
* `Settings.toJson`, `Settings.ofJson?` — the choices as a record.
-/

namespace Drac

open Log (Level)

/-- The choices about reading files. -/
structure FileSettings where
  /-- Whether a file must have the extension of the language. -/
  requireExtension : Bool
  /-- Whether the log says how large a file is. -/
  logPerformance : Bool
  deriving DecidableEq, Repr

/-- The choices about the log. -/
structure LogSettings where
  /-- Whether events are printed as records. -/
  structured : Bool
  /-- Whether events are printed at all. -/
  console : Bool
  /-- What events are kept. -/
  minLevel : Level
  /-- Whether events say which file is worked on. -/
  includeFile : Bool
  deriving DecidableEq, Repr

/-- All that the user may choose. -/
structure Settings where
  /-- About reading files. -/
  files : FileSettings
  /-- About lexing. -/
  lexer : Lexer.Preferences
  /-- About the log. -/
  log : LogSettings
  deriving DecidableEq, Repr

/-! ### From the environment -/

/-- The level that a setting names, by word or by number; the case of letters does not matter. -/
def Log.Level.ofSetting? (s : String) : Option Level :=
  match Text.lowercase s with
  | "error" | "0" => some .error
  | "warning" | "warn" | "1" => some .warning
  | "info" | "2" => some .info
  | "debug" | "3" => some .debug
  | _ => none

/-- The truth value that a setting names. -/
def boolOfSetting? : String → Option Bool
  | "true" => some true
  | "false" => some false
  | _ => none

namespace Settings

/-- The variables of the environment that make choices. -/
def environmentNames : List String :=
  ["DRAC_REQUIRE_DRAC_EXTENSION", "DRAC_ENABLE_PERFORMANCE_LOGGING",
    "DRAC_LEXICAL_WARN_ILLEGAL_CHARS", "DRAC_LEXICAL_TRACK_CATEGORIES",
    "DRAC_LOGGING_USE_STRUCTURED", "DRAC_LOGGING_ENABLE_CONSOLE", "DRAC_LOGGING_MIN_LEVEL",
    "DRAC_LOGGING_INCLUDE_FILE_CONTEXT"]

/-- The choices that the environment makes; a value that means nothing counts as no choice. -/
def ofEnvironment (env : String → Option String) : Settings :=
  let flag (name : String) (fallback : Bool) : Bool :=
    ((env name).bind boolOfSetting?).getD fallback
  { files :=
      { requireExtension := flag "DRAC_REQUIRE_DRAC_EXTENSION" false
        logPerformance := flag "DRAC_ENABLE_PERFORMANCE_LOGGING" true }
    lexer :=
      { warnOnIllegal := flag "DRAC_LEXICAL_WARN_ILLEGAL_CHARS" true
        trackCategories := flag "DRAC_LEXICAL_TRACK_CATEGORIES" false }
    log :=
      { structured := flag "DRAC_LOGGING_USE_STRUCTURED" false
        console := flag "DRAC_LOGGING_ENABLE_CONSOLE" false
        minLevel := ((env "DRAC_LOGGING_MIN_LEVEL").bind Level.ofSetting?).getD .info
        includeFile := flag "DRAC_LOGGING_INCLUDE_FILE_CONTEXT" true } }

/-- The choices of an empty environment. -/
def default : Settings := ofEnvironment fun _ => none

instance : Inhabited Settings := ⟨default⟩

/-! ### As a record -/

/-- The name of a level in a record. -/
def levelName : Level → String
  | .error => "Error"
  | .warning => "Warning"
  | .info => "Info"
  | .debug => "Debug"

/-- The level of a name in a record. -/
def levelOfName? (name : String) : Option Level :=
  [Level.error, .warning, .info, .debug].find? fun l => levelName l == name

/-- The choices as a record. -/
def toJson (s : Settings) : Json :=
  .object
    [("file_processor", .object
        [("require_drac_extension", .bool s.files.requireExtension),
          ("enable_performance_logging", .bool s.files.logPerformance)]),
      ("lexical", .object
        [("warn_on_illegal_chars", .bool s.lexer.warnOnIllegal),
          ("track_category_counts", .bool s.lexer.trackCategories)]),
      ("logging", .object
        [("use_structured_logging", .bool s.log.structured),
          ("enable_console_logging", .bool s.log.console),
          ("min_log_level", .string (levelName s.log.minLevel)),
          ("include_file_context", .bool s.log.includeFile)])]

/-- The choices that a record makes; every choice must be made. -/
def ofJson? (text : String) : Option Settings := do
  let [some files, some lexical, some logging] ←
    Json.fields? ["file_processor", "lexical", "logging"] text.toList | none
  let [some require, some performance] ←
    Json.fields? ["require_drac_extension", "enable_performance_logging"] files | none
  let [some warn, some track] ←
    Json.fields? ["warn_on_illegal_chars", "track_category_counts"] lexical | none
  let [some structured, some console, some level, some withFile] ← Json.fields?
    ["use_structured_logging", "enable_console_logging", "min_log_level", "include_file_context"]
    logging | none
  return {
    files := ⟨← Json.boolOf? require, ← Json.boolOf? performance⟩
    lexer := ⟨← Json.boolOf? warn, ← Json.boolOf? track⟩
    log := ⟨← Json.boolOf? structured, ← Json.boolOf? console,
      ← (Json.variantOf? level).bind levelOfName?, ← Json.boolOf? withFile⟩ }

/-- The rules of the journal that the choices ask for. -/
def journalRules (s : Settings) (messageLimit : Nat) : Log.JournalRules :=
  ⟨s.log.minLevel, s.log.includeFile, messageLimit⟩

end Settings

end Drac
