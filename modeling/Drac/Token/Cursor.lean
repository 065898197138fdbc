import Drac.Token.Source

/-!
# A cursor with one token of lookahead

A cursor stands on one token of a source and knows nothing of what follows.  It moves forward only,
and once it stands on the end of the input it stays there.

## Main definitions

* `Cursor`, `Cursor.start` — a cursor, and the one on the first token of a source.
* `Cursor.advance` — the move to the next token.
* `Cursor.remaining` — a bound on the number of moves that are left.

## Main results

* `Cursor.advance_of_isEof` — the end of the input is never left.
* `Cursor.remaining_advance_lt` — every other move takes something away from what remains.
-/

namespace Drac

open Log (Event)

/-- A place in the tokens of a source. -/
structure Cursor (σ : Type) where
  /-- Where further tokens come from. -/
  source : σ
  /-- The token that the cursor stands on. -/
  current : Token
  /-- The number of tokens moved past. -/
  consumed : Nat
  /-- What was logged while asking for tokens. -/
  log : Array Event

namespace Cursor

variable {σ : Type} [TokenSource σ]

/-- The detail that the log gives of an end that no source announced. -/
def missingEndEvent (p : Position) : Event :=
  (Event.debug "Token source ended without EOF, synthesizing one").attachAll
    [("line", toString p.line), ("column", toString p.column)]

/-- The cursor on the first token of a source; a source that gives none starts at its end. -/
def start (s : σ) : Cursor σ :=
  let p := TokenSource.pull s
  ⟨p.source, p.token.getD (Token.eof .start), 0, p.events.toArray⟩

/-- The category of the token that the cursor stands on. -/
def category (c : Cursor σ) : Category := c.current.category

/-- The move to the next token.  A source that runs dry without an end of the input has its end
right after its last token. -/
def advance (c : Cursor σ) : Cursor σ :=
  if c.current.isEof then c
  else
    match TokenSource.pull c.source with
    | ⟨some t, es, s⟩ => ⟨s, t, c.consumed + 1, c.log ++ es⟩
    | ⟨none, es, s⟩ =>
      let p := c.current.endPosition
      ⟨s, Token.eof p, c.consumed + 1, (c.log ++ es).push (missingEndEvent p)⟩

/-- A bound on the number of moves that are left before the end of the input. -/
def remaining (c : Cursor σ) : Nat :=
  if c.current.isEof then 0 else TokenSource.size c.source + 1

theorem advance_of_isEof {c : Cursor σ} (h : c.current.isEof = true) : c.advance = c := by
  simp [advance, h]

theorem remaining_advance_lt {c : Cursor σ} (h : c.current.isEof = false) :
    c.advance.remaining < c.remaining := by
  unfold advance
  rw [if_neg (by simp [h])]
  have hc : c.remaining = TokenSource.size c.source + 1 := by simp [remaining, h]
  split
  next t es s hp =>
    have hsize := TokenSource.size_pull_lt c.source (by simp [hp])
    simp only [hp] at hsize
    rw [hc]
    simp only [remaining]
    split <;> omega
  next es s hp =>
    rw [hc]
    simp [remaining]

theorem consumed_advance {c : Cursor σ} (h : c.current.isEof = false) :
    c.advance.consumed = c.consumed + 1 := by
  unfold advance
  rw [if_neg (by simp [h])]
  split <;> rfl

end Cursor

end Drac
