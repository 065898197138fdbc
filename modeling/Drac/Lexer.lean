import Drac.Lexer.Metrics
import Drac.Lexer.Span
import Drac.Text.Escape
import Drac.Token.Source

/-!
# The lexer

A lexer walks over a source text and gives a token whenever it is asked for one, until it has given
the end of the input.  It never fails: a character that starts no token becomes a token of its own.

## Main definitions

* `Place`, `Place.past` — where the lexer is, and how what a rule has taken moves it on.
* `Lexer.Preferences` — what the user may choose.
* `Lexer`, `Lexer.ofString` — a lexer, and the one at the start of a text.
* `Lexer.next` — the next token, with what is logged on the way.

## Main results

* `Lexer.size_next_lt` — a lexer runs dry, so it is a source of tokens.
-/

namespace Drac

open Log (Event Code)

/-! ### Places -/

/-- Where the next character stands. -/
structure Place where
  /-- The line, the first one being 1. -/
  line : Nat
  /-- The number of characters before the line. -/
  origin : Nat
  /-- The number of characters before the next one. -/
  index : Nat
  deriving DecidableEq, Repr

namespace Place

/-- Before the first character. -/
def start : Place := ⟨1, 0, 0⟩

/-- Past characters of the same line. -/
def along (p : Place) (width : Nat) : Place := { p with index := p.index + width }

/-- On a line further down, which starts at `origin`. -/
def startLine (p : Place) (lines origin : Nat) : Place :=
  { p with line := p.line + lines, origin := origin }

/-- Past a text that may hold line breaks, the last of which is looked for from the end. -/
def cross (p : Place) (text : List Char) : Place :=
  match text.reverse.findIdx? (· == '\n') with
  | none => p.along text.length
  | some last =>
    (p.along text.length).startLine (text.count '\n') (p.index + text.length - last)

/-- Past the text that a rule has taken. -/
def past (p : Place) (kind : Lexer.Kind) (text : List Char) : Place :=
  match kind with
  | .newline => (p.along text.length).startLine 1 (p.index + 1)
  | .whitespace | .lineComment => p.along text.length
  | .blockComment | .word | .illegal | .token _ => p.cross text

/-- The line and column of the next character. -/
def position (p : Place) : Position := ⟨p.line, p.index - p.origin + 1⟩

end Place

/-! ### Lexers -/

/-- What the user may choose about lexing; tokens do not depend on it. -/
structure Lexer.Preferences where
  /-- Whether characters that start no token are reported. -/
  warnOnIllegal : Bool
  /-- Whether tokens are counted by category. -/
  trackCategories : Bool
  deriving DecidableEq, Repr

/-- A lexer on its way through a source text. -/
structure Lexer where
  /-- The characters that have not been read. -/
  rest : List Char
  /-- Where they start. -/
  place : Place
  /-- Whether the end of the input has been given. -/
  finished : Bool
  /-- What has been passed. -/
  metrics : Lexer.Metrics
  /-- What the user chose. -/
  preferences : Lexer.Preferences
  /-- The number of illegal characters that are reported one by one. -/
  reportLimit : Nat

namespace Lexer

/-- The lexer at the start of a list of characters. -/
def ofList (reportLimit : Nat) (preferences : Preferences) (source : List Char) : Lexer where
  rest := source
  place := .start
  finished := false
  metrics := .initial preferences.trackCategories
  preferences := preferences
  reportLimit := reportLimit

/-- The lexer at the start of a text. -/
def ofString (reportLimit : Nat) (preferences : Preferences) (source : String) : Lexer :=
  ofList reportLimit preferences source.toList

/-! ### Reports -/

/-- What is logged about an illegal character, `seen` of which have been met with it: each one up to
the limit, and once that there will be no more reports. -/
def illegalEvents (s : Lexer) (seen : Nat) (text : String) (p : Position) : List Event :=
  if !s.preferences.warnOnIllegal then []
  else if seen ≤ s.reportLimit then
    [((Event.warning "Illegal character in source" (some .illegalCharacter)).located
      (some p)).attach "char" (Text.escaped text)]
  else if seen = s.reportLimit + 1 then
    [((Event.warning "Further illegal characters will not be reported"
      (some .illegalCharacterLimit)).located (some p)).attach "limit" (toString s.reportLimit)]
  else []

/-- What is logged at the end of the input. -/
def endEvent (m : Metrics) : Event :=
  (Event.debug "Tokenization reached end of input").attachAll
    [("tokens", toString m.totalTokens), ("lines", toString m.lineCount),
      ("illegal_chars", toString m.illegalChars)]

/-! ### Steps -/

/-- Past a span that becomes no token. -/
def skip (s : Lexer) (span : Span) (rest : List Char) : Lexer :=
  let place := s.place.past span.rule.kind span.text
  let metrics := if span.isComment then s.metrics.countComment else s.metrics
  { s with rest := rest, place := place, metrics := metrics.atLine place.line }

/-- Past a span that becomes a token. -/
def emit (s : Lexer) (span : Span) (c : Category) (rest : List Char) : Pull Lexer :=
  let place := s.place.past span.rule.kind span.text
  let metrics := (s.metrics.countToken c).atLine place.line
  let text := String.ofList span.text
  let position := s.place.position
  { token := some ⟨some text, c, position⟩
    events := if c = .illegalChar then s.illegalEvents metrics.illegalChars text position else []
    source := { s with rest := rest, place := place, metrics := metrics } }

/-- At the end of the text: the end of the input is given once. -/
def finish (s : Lexer) : Pull Lexer where
  token := some (Token.eof s.place.position)
  events := [endEvent s.metrics]
  source := { s with finished := true }

set_option linter.unusedVariables false in
/-- The next token; none after the end of the input. -/
def next (s : Lexer) : Pull Lexer :=
  if s.finished then ⟨none, [], s⟩
  else
    match h : nextSpan? s.rest with
    | none => s.finish
    | some (span, rest) =>
      match span.category? with
      | none => next (s.skip span rest)
      | some c => s.emit span c rest
termination_by s.rest.length
decreasing_by exact nextSpan?_lt h

/-- A bound on the number of tokens that a lexer still gives. -/
def size (s : Lexer) : Nat := if s.finished then 0 else s.rest.length + 1

theorem size_next_lt (s : Lexer) (h : s.next.token.isSome = true) :
    s.next.source.size < s.size := by
  fun_induction next s with
  | case1 s hf => simp at h
  | case2 s hf _ =>
    have hf : s.finished = false := by simpa using hf
    simp [finish, size, hf]
  | case3 s hf span rest hs hc ih =>
    have hlt := nextSpan?_lt hs
    have hf : s.finished = false := by simpa using hf
    have hrest := ih h
    have hk : (s.skip span rest).size = rest.length + 1 := by simp [size, skip, hf]
    have hs : s.size = s.rest.length + 1 := by simp [size, hf]
    omega
  | case4 s hf span rest hs c hc =>
    have hlt := nextSpan?_lt hs
    have hf : s.finished = false := by simpa using hf
    simp [emit, size, hf]
    omega

/-- A lexer gives its tokens on request. -/
instance : TokenSource Lexer where
  pull := next
  size := size
  size_pull_lt := size_next_lt

end Lexer

end Drac
