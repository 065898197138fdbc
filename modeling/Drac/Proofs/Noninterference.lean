import Drac.Proofs.EventTrace

/-!
# What the user chooses and what is logged

Whether illegal characters are reported and whether categories are counted is up to the user, and how a
journal is kept is up to whoever starts the run.  The lexer reads its own counters to decide on a report.
But nothing is ever read back from a report, from the histogram or from the journal: a lexer without any
of the choices of the user gives the same tokens and counts the same, and what it reports is all that
could have been reported.  So two runs over one text differ in nothing else.

## Main definitions

* `Preferences.wants` — whether an event is logged under some preferences, if there is an occasion.
* `Metrics.uncategorized`, `Lexer.neutral` — counters without the histogram, and a lexer without the choices
  of the user.
* `Lexer.requests` — some requests to a lexer, with a journal to which it writes.

## Main results

* `Lexer.next_neutral`, `Lexer.after_neutral` — the choices make no difference to a request, nor to any
  number of them, except to what is logged.
* `analyze_eq`, `requests_eq` — an analysis and a run of requests, with every influence of the choices and of
  the journal spelled out.
* `preferences_noninterference` — **neither preferences nor logging have an influence on results**, and
  preferences have none on the journal but for warnings of illegal characters.
-/

namespace Drac

open Log (Event Journal Logged)
open Syntax (Outcome Parser)

/-! ### Events that may be unwanted -/

/-- Whether an event warns of a character that starts no token, or that no more of them are reported. -/
def Log.Event.warnsOfIllegal (e : Event) : Bool :=
  e.level == .warning && (e.code == .illegalCharacter || e.code == .illegalCharacterLimit)

/-- Only warnings of illegal characters may be unwanted. -/
def Lexer.Preferences.wants (p : Preferences) (e : Event) : Bool :=
  p.warnOnIllegal || !e.warnsOfIllegal

namespace Log

theorem Event.warnsOfIllegal_eq_of_heading {e e' : Event} (h : e.heading = e'.heading) :
    e.warnsOfIllegal = e'.warnsOfIllegal := by
  obtain ⟨hlevel, hcode, -⟩ : e.level = e'.level ∧ e.code = e'.code ∧ e.position = e'.position := by
    simpa [heading] using h
  rw [warnsOfIllegal, warnsOfIllegal, hlevel, hcode]

/-- A journal keeps of the wanted events what is wanted of those it keeps. -/
theorem Journal.entries_filter_wants (j : Journal) (p : Lexer.Preferences) (es : List Event) :
    j.entries (es.filter p.wants) = (j.entries es).filter p.wants := by
  have hkept : p.wants ∘ j.kept = p.wants := by
    funext e
    show (p.warnOnIllegal || !(j.kept e).warnsOfIllegal) = _
    rw [Event.warnsOfIllegal_eq_of_heading (heading_kept j e)]
    rfl
  rw [entries, entries, List.filter_map, hkept, List.filter_filter, List.filter_filter]
  simp only [Bool.and_comm]

end Log

namespace Lexer

/-! ### Without the choices of the user -/

/-- The counters without the histogram. -/
def Metrics.uncategorized (m : Metrics) : Metrics := { m with categoryCounts := none }

theorem Metrics.uncategorized_countToken (m : Metrics) (c : Category) :
    (m.countToken c).uncategorized = m.uncategorized.countToken c := by
  cases c <;> rfl

/-- The preferences under which everything is reported and no categories are counted. -/
def Preferences.neutral : Preferences := ⟨true, false⟩

/-- A lexer without the choices of the user. -/
def neutral (s : Lexer) : Lexer :=
  { s with preferences := .neutral, metrics := s.metrics.uncategorized }

theorem neutral_skip (s : Lexer) (span : Span) (rest : List Char) :
    (s.skip span rest).neutral = s.neutral.skip span rest := by
  unfold skip
  split <;> rfl

theorem neutral_emit (s : Lexer) (span : Span) (c : Category) (rest : List Char) :
    (s.emit span c rest).source.neutral = (s.neutral.emit span c rest).source := by
  simp only [neutral, emit, ← Metrics.uncategorized_countToken]
  rfl

/-! ### What is reported -/

theorem wants_endEvent (p : Preferences) (m : Metrics) : p.wants (endEvent m) = true :=
  Bool.or_true _

theorem warnsOfIllegal_of_mem_illegalEvents {s : Lexer} {seen : ℕ} {text : String}
    {position : Position} {e : Event} (he : e ∈ s.illegalEvents seen text position) :
    e.warnsOfIllegal = true := by
  unfold illegalEvents at he
  split at he
  · cases he
  · split at he
    · rw [List.mem_singleton.mp he]
      rfl
    · split at he
      · rw [List.mem_singleton.mp he]
        rfl
      · cases he

theorem illegalEvents_eq_filter (s : Lexer) (seen : ℕ) (text : String) (position : Position) :
    s.illegalEvents seen text position =
      (s.neutral.illegalEvents seen text position).filter s.preferences.wants := by
  cases hwarn : s.preferences.warnOnIllegal with
  | true =>
    have hall : ∀ e ∈ s.neutral.illegalEvents seen text position, s.preferences.wants e := by
      intro e _
      rw [Preferences.wants, hwarn, Bool.true_or]
    rw [List.filter_eq_self.mpr hall, illegalEvents, hwarn]
    rfl
  | false =>
    have hnone : ∀ e ∈ s.neutral.illegalEvents seen text position, ¬ s.preferences.wants e := by
      intro e he
      rw [Preferences.wants, hwarn, warnsOfIllegal_of_mem_illegalEvents he]
      decide
    rw [List.filter_eq_nil_iff.mpr hnone, illegalEvents, hwarn]
    rfl

theorem events_emit (s : Lexer) (span : Span) (c : Category) (rest : List Char) :
    (s.emit span c rest).events =
      if c = .illegalChar then
        s.illegalEvents (s.metrics.countToken c).illegalChars (String.ofList span.text)
          s.place.position
      else [] := rfl

theorem events_emit_eq_filter (s : Lexer) (span : Span) (c : Category) (rest : List Char) :
    (s.emit span c rest).events =
      (s.neutral.emit span c rest).events.filter s.preferences.wants := by
  -- the report depends on a counter, which is the same without the histogram
  have hseen : (s.neutral.metrics.countToken c).illegalChars =
      (s.metrics.countToken c).illegalChars := by
    show (s.metrics.uncategorized.countToken c).illegalChars = _
    rw [← Metrics.uncategorized_countToken]
    rfl
  rw [events_emit, events_emit, hseen]
  split
  · exact illegalEvents_eq_filter ..
  · rw [List.filter_nil]

/-! ### Requests -/

/-- What one request does does not depend on the choices, and what it logs is what is wanted of all that
could be logged. -/
theorem next_neutral (s : Lexer) :
    s.neutral.next.token = s.next.token ∧ s.neutral.next.source = s.next.source.neutral ∧
      s.next.source.preferences = s.preferences ∧
      s.next.events = s.neutral.next.events.filter s.preferences.wants := by
  fun_induction next s with
  | case1 s hf =>
    rw [next_of_finished (s := s.neutral) hf]
    exact ⟨rfl, rfl, rfl, rfl⟩
  | case2 s hf hnone =>
    have hf : s.neutral.finished = false := Bool.eq_false_of_not_eq_true hf
    rw [next_of_nextSpan?_eq_none hf hnone]
    refine ⟨rfl, rfl, rfl, ?_⟩
    show [endEvent s.metrics] = List.filter s.preferences.wants [endEvent s.metrics]
    rw [List.filter_cons_of_pos (wants_endEvent ..), List.filter_nil]
  | case3 s hf span rest hs hc ih =>
    have hf : s.neutral.finished = false := Bool.eq_false_of_not_eq_true hf
    rw [next_of_nextSpan? hf hs, hc, ← neutral_skip]
    exact ih
  | case4 s hf span rest hs c hc =>
    have hf : s.neutral.finished = false := Bool.eq_false_of_not_eq_true hf
    rw [next_of_nextSpan? hf hs, hc]
    exact ⟨rfl, (neutral_emit ..).symm, rfl, events_emit_eq_filter ..⟩

/-- No number of requests tells what the user has chosen. -/
theorem after_neutral (s : Lexer) (n : ℕ) :
    s.neutral.after n = (s.after n).neutral ∧ (s.after n).preferences = s.preferences := by
  induction n with
  | zero => exact ⟨rfl, rfl⟩
  | succ n ih =>
    obtain ⟨-, hsource, hpreferences, -⟩ := next_neutral (s.after n)
    rw [after_succ, after_succ, ih.1]
    exact ⟨hsource, hpreferences.trans ih.2⟩

theorem uncategorized_metrics_after (s : Lexer) (n : ℕ) :
    (s.after n).metrics.uncategorized = (s.neutral.after n).metrics := by
  rw [(after_neutral s n).1]
  rfl

theorem token_after_neutral (s : Lexer) (n : ℕ) :
    (s.neutral.after n).next.token = (s.after n).next.token := by
  rw [(after_neutral s n).1, (next_neutral _).1]

/-- What a lexer logs in answer to the first requests. -/
def logged (s : Lexer) (n : ℕ) : List Event :=
  (List.range n).flatMap fun i => (s.after i).next.events

theorem logged_succ (s : Lexer) (n : ℕ) : s.logged (n + 1) = s.logged n ++ (s.after n).next.events := by
  rw [logged, List.range_succ, List.flatMap_append, List.flatMap_singleton]
  rfl

/-- What is logged is what is wanted of all that could be logged. -/
theorem logged_eq_filter (s : Lexer) (n : ℕ) :
    s.logged n = (s.neutral.logged n).filter s.preferences.wants := by
  rw [logged, logged, List.filter_flatMap]
  refine List.flatMap_congr fun i _ => ?_
  obtain ⟨hneutral, hpreferences⟩ := after_neutral s i
  rw [(next_neutral (s.after i)).2.2.2, hneutral, hpreferences]

/-- Some requests, with a journal to which the lexer writes: their answers, and the lexer behind them. -/
def requests (s : Lexer) : ℕ → Logged (List (Option Token) × Lexer)
  | 0 => return ([], s)
  | n + 1 => do
    let (answers, s') ← s.requests n
    Logged.recordAll s'.next.events.toArray
    return (answers ++ [s'.next.token], s'.next.source)

/-- Requests are answered alike whatever the journal is; it gets what the lexer logs. -/
theorem requests_eq (s : Lexer) (n : ℕ) (j : Journal) :
    s.requests n j =
      (((List.range n).map fun i => (s.after i).next.token, s.after n),
        j.extended (j.entries (s.logged n))) := by
  induction n with
  | zero => exact congrArg (([], s), ·) (Journal.extended_nil j).symm
  | succ n ih =>
    have hlast : s.requests (n + 1) j =
        (((s.requests n j).1.1 ++ [(s.requests n j).1.2.next.token],
            (s.requests n j).1.2.next.source),
          (s.requests n j).1.2.next.events.toArray.foldl Journal.record (s.requests n j).2) := rfl
    rw [hlast, ih, List.foldl_toArray, Journal.foldl_record, Journal.entries_extended,
      Journal.extended_extended, ← Journal.entries_append, ← logged_succ, ← after_succ,
      List.range_succ, List.map_append]
    rfl

end Lexer

/-! ### Analyses -/

/-- What a text consists of, without the histogram. -/
def Analysis.uncategorized (a : Analysis) : Analysis := { a with metrics := a.metrics.uncategorized }

/-- An outcome is wanted whatever the user has chosen. -/
theorem wants_outcomeEvent (p : Lexer.Preferences) (consumed : ℕ) (o : Outcome) :
    p.wants (Syntax.outcomeEvent consumed o) = true := by
  have hquiet : (Syntax.outcomeEvent consumed o).warnsOfIllegal = false := by
    rcases o with e | -
    · cases e <;> rfl
    · rfl
  rw [Lexer.Preferences.wants, hquiet]
  exact Bool.or_true _

section

variable (limits : Limits) (p q : Lexer.Preferences) (source : String) (n : ℕ) (j k : Journal)

/-- An analysis runs as far as its tokens say, and the lexer logs what that many requests do. -/
theorem recognizing_eq :
    let verdict := (Parser.start limits.maxParseDepth (tokensOf source)).program
    let run := (recognizing limits (lexer limits p source) j).1
    run.1 = verdict.1 ∧ run.2.consumed = verdict.2.consumed ∧
      run.2.cursor.source = (lexer limits p source).after (verdict.2.consumed + 1) ∧
      run.2.cursor.log.toList = (lexer limits p source).logged (verdict.2.consumed + 1) := by
  intro verdict run
  have hconsumed : run.2.consumed = verdict.2.consumed := consumed_recognizing limits p source j
  have htraces : run.2.cursor.Traces (lexer limits p source) :=
    Parser.traces_run [.phrase .program] (Cursor.traces_start rfl)
  rw [← hconsumed]
  exact ⟨outcome_checkSource limits p source j, rfl, htraces.source, htraces.log⟩

/-- Of the choices of the user and of the journal nothing is left in an analysis but the histogram, and
nothing of the choices in the journal but which warnings are wanted. -/
theorem analyze_eq :
    let verdict := (Parser.start limits.maxParseDepth (tokensOf source)).program
    let k := verdict.2.consumed
    let s := lexer limits .neutral source
    (analyze limits p source j).1.map Analysis.uncategorized =
        verdict.1.map (fun _ => ⟨(s.after (k + 1)).metrics, k⟩) ∧
      (analyze limits p source j).2 =
        j.extended ((j.entries (s.logged (k + 1) ++ [Syntax.outcomeEvent k verdict.1])).filter
          p.wants) := by
  intro verdict k s
  obtain ⟨houtcome, hconsumed, hsource, hlog⟩ := recognizing_eq limits p source j
  constructor
  · set run := (recognizing limits (lexer limits p source) j).1
    have hanalysis : (analyze limits p source j).1 =
        run.1.map fun _ => ⟨run.2.cursor.source.metrics, run.2.consumed⟩ := rfl
    have hmetrics : ((lexer limits p source).after (k + 1)).metrics.uncategorized =
        (s.after (k + 1)).metrics := Lexer.uncategorized_metrics_after ..
    rw [hanalysis, houtcome, hconsumed, hsource, ← hmetrics]
    show Except.map _ (Except.map _ verdict.1) = _
    cases verdict.1 <;> rfl
  · rw [journal_analyze, houtcome, hconsumed, hlog, Lexer.logged_eq_filter, ← j.entries_filter_wants,
      List.filter_append, List.filter_singleton, wants_outcomeEvent]
    rfl

/-- A run of requests is answered alike whatever the choices and the journal are. -/
theorem requests_lexer_eq :
    let s := lexer limits .neutral source
    ((lexer limits p source).requests n j).1.1 = (List.range n).map (fun i => (s.after i).next.token) ∧
      ((lexer limits p source).requests n j).1.2.metrics.uncategorized = (s.after n).metrics ∧
      ((lexer limits p source).requests n j).2 =
        j.extended ((j.entries (s.logged n)).filter p.wants) := by
  intro s
  rw [Lexer.requests_eq, Lexer.logged_eq_filter, Journal.entries_filter_wants]
  refine ⟨?_, Lexer.uncategorized_metrics_after .., rfl⟩
  exact List.map_congr_left fun i _ => (Lexer.token_after_neutral ..).symm

/-- **Neither preferences nor logging have an influence on results.**  Two runs over one text, under any
preferences and with any journals, list the same tokens.  Any number of requests is answered alike, and the
counters agree behind them but for the histogram.  The analysis has the same outcome: the same error, or the
same number of tokens and the same counters but for the histogram.  If the journals are the same before the
runs, then what is written to them differs in nothing but the warnings of illegal characters, which are left
out where they are unwanted. -/
theorem preferences_noninterference :
    let ran (p : Lexer.Preferences) (j : Journal) := (lexer limits p source).requests n j
    let analyzed (p : Lexer.Preferences) (j : Journal) := analyze limits p source j
    (collectTokens limits p source j).1 = (collectTokens limits q source k).1 ∧
      (ran p j).1.1 = (ran q k).1.1 ∧
      (ran p j).1.2.metrics.uncategorized = (ran q k).1.2.metrics.uncategorized ∧
      (analyzed p j).1.map Analysis.uncategorized = (analyzed q k).1.map Analysis.uncategorized ∧
      (∃ es : List Event, (ran p j).2 = j.extended (es.filter p.wants) ∧
        (ran q j).2 = j.extended (es.filter q.wants)) ∧
      ∃ es : List Event, (analyzed p j).2 = j.extended (es.filter p.wants) ∧
        (analyzed q j).2 = j.extended (es.filter q.wants) := by
  intro ran analyzed
  have htokens : (collectTokens limits p source j).1 = (collectTokens limits q source k).1 :=
    Array.ext' ((toList_collectTokens ..).trans (toList_collectTokens ..).symm)
  obtain ⟨hanswers, hmetrics, hran⟩ := requests_lexer_eq limits p source n j
  obtain ⟨hanswers', hmetrics', -⟩ := requests_lexer_eq limits q source n k
  obtain ⟨-, -, hran'⟩ := requests_lexer_eq limits q source n j
  obtain ⟨hanalysis, hanalyzed⟩ := analyze_eq limits p source j
  obtain ⟨hanalysis', -⟩ := analyze_eq limits q source k
  obtain ⟨-, hanalyzed'⟩ := analyze_eq limits q source j
  exact ⟨htokens, hanswers.trans hanswers'.symm, hmetrics.trans hmetrics'.symm,
    hanalysis.trans hanalysis'.symm, ⟨_, hran, hran'⟩, _, hanalyzed, hanalyzed'⟩

end

end Drac
