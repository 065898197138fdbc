import Drac.Report

/-!
# Checking files

## Main definitions

* `checkFile` — reads a file and recognizes its text.
* `dumpTokens` — reads a file and lists its tokens.
-/

namespace Drac

open Log (Event Code Logged)

/-- What is logged about a file that was checked.  No clock is read, so no time has passed. -/
def Checked.event (path : String) (c : Checked) : Event :=
  (Event.success .checkDone "Drac syntax check pipeline succeeded").attachAll
    [("duration_ms", "0.00"), ("file", path), ("tokens", toString c.analysis.tokenCount),
      ("lines", toString c.analysis.metrics.lineCount), ("tokens_per_sec", "0")]

/-- Reads a file and recognizes its text. -/
def checkFile (limits : Limits) (files : FileSettings) (preferences : Lexer.Preferences)
    (disk : String → Probe) (path : String) : Logged (Except Failure Checked) :=
  Logged.withFile ⟨path, 0⟩ do
    Logged.record ((Event.info "Starting Drac syntax check pipeline").attach "file" path)
    match ← SourceFile.read limits files disk path with
    | .error e => return .error (.unreadable e)
    | .ok f =>
      match ← analyze limits preferences f.text with
      | .error e => return .error (.rejected e)
      | .ok a =>
        let c : Checked := ⟨f.metadata, a⟩
        Logged.record (c.event path)
        return .ok c

/-- The choices under which files are read for a list of tokens, whatever the user chose. -/
def FileSettings.forTokens : FileSettings := ⟨false, true⟩

/-- Reads a file and lists its tokens, the end of the input included. -/
def dumpTokens (limits : Limits) (preferences : Lexer.Preferences) (disk : String → Probe)
    (path : String) : Logged (Except Failure (Array Token)) :=
  Logged.withFile ⟨path, 0⟩ do
    match ← SourceFile.read limits .forTokens disk path with
    | .error e => return .error (.unreadable e)
    | .ok f =>
      let tokens ← collectTokens limits preferences f.text
      Logged.record
        ((Event.success .tokensListed "Token dump completed").attachAll
          [("file", path), ("tokens", toString tokens.size)])
      return .ok tokens

end Drac
