import Drac.Lexer
import Drac.Limits
import Drac.Log.Journal
import Drac.Syntax.Parser

/-!
# Recognizing sources

## Main definitions

* `Syntax.outcomeEvent` — what is logged when recognition ends.
* `recognize` — recognizing the tokens of any source.
* `checkSource` — recognizing a text.
* `Analysis`, `analyze` — recognizing a text and counting what it consists of.
* `collectTokens` — all tokens of a text.
-/

namespace Drac

open Log (Event Code Logged)
open Syntax (Outcome Parser SyntaxError)

/-- What is logged when recognition ends after some tokens. -/
def Syntax.outcomeEvent (consumed : Nat) : Outcome → Event
  | .ok _ =>
    (Event.success .syntaxAccepted "Syntax analysis completed successfully").attach
      "tokens" (toString consumed)
  | .error e =>
    match e with
    | .unexpectedToken expected found =>
      ((Event.error e.code "Syntax analysis failed").located (some found.position)).attachAll
        [("expected", expected.display), ("found", found.category.name),
          ("tokens_before_error", toString consumed)]
    | .maxNestingDepth limit found =>
      ((Event.error e.code "Maximum nesting depth exceeded").located
        (some found.position)).attachAll
        [("max_depth", toString limit), ("tokens_before_error", toString consumed)]

/-- Recognizes a program, one token at a time.  What the source of tokens logs is written first,
then the outcome. -/
def recognizing {σ : Type} [TokenSource σ] (limits : Limits) (s : σ) :
    Logged (Outcome × Parser σ) := do
  let (outcome, p) := (Parser.start limits.maxParseDepth s).program
  Logged.recordAll p.cursor.log
  Logged.record (Syntax.outcomeEvent p.consumed outcome)
  return (outcome, p)

/-- Recognizes the tokens of a source. -/
def recognize {σ : Type} [TokenSource σ] (limits : Limits) (s : σ) : Logged Outcome :=
  return (← recognizing limits s).1

/-- The lexer of a text under given limits. -/
def lexer (limits : Limits) (preferences : Lexer.Preferences) (source : String) : Lexer :=
  .ofString limits.maxReportedIllegalChars preferences source

/-- Recognizes a text. -/
def checkSource (limits : Limits) (preferences : Lexer.Preferences) (source : String) :
    Logged Outcome :=
  recognize limits (lexer limits preferences source)

/-- What a text that was recognized consists of. -/
structure Analysis where
  /-- The counters of the lexer. -/
  metrics : Lexer.Metrics
  /-- The number of tokens that were passed, the end of the input not counted. -/
  tokenCount : Nat
  deriving DecidableEq, Repr

/-- Recognizes a text and counts what it consists of. -/
def analyze (limits : Limits) (preferences : Lexer.Preferences) (source : String) :
    Logged (Except SyntaxError Analysis) := do
  let (outcome, p) ← recognizing limits (lexer limits preferences source)
  return outcome.map fun _ => ⟨p.cursor.source.metrics, p.consumed⟩

/-- All tokens of a text, the end of the input included. -/
def collectTokens (limits : Limits) (preferences : Lexer.Preferences) (source : String) :
    Logged (Array Token) := do
  let d := TokenSource.drain (lexer limits preferences source)
  Logged.recordAll d.events
  return d.tokens

end Drac
