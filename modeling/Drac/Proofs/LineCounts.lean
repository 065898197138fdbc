import Drac.Proofs.Accounting
import Drac.Proofs.Reading
import Drac.Proofs.SinglePass
import Drac.Proofs.TextMeasures

/-!
# Two counts of lines

The lines of a file are counted twice.  When the file is read its text is looked at as a whole, and what
stands behind the last line break is a line only if there is anything.  When the text is analyzed the lexer
counts the line that it is on, span by span, and it is on a line even if nothing stands there.  Both counts
come from the line breaks of the text, so they differ only where the text ends at the start of a line.

## Main results

* `Lexer.rest_after_eq_nil` — a lexer that has given the end of the input has read its text.
* `Lexer.lineCount_after_tokensOf` — the lexer counts one line more than there are line breaks.
* `metrics_of_analyze`, `SourceFile.lineCount_of_outcome` — where the two counts of a file come from.
* `lineCount_drain_lexer` — **the two counts agree**, up to an empty last line.
-/

namespace Drac

/-! ### The lines that a lexer counts -/

namespace Lexer

/-- The end of the input is given where nothing is left of the text. -/
theorem rest_next_eq_nil {s : Lexer} (h : s.finished = true → s.rest = [])
    (hnext : s.next.source.finished = true) : s.next.source.rest = [] := by
  by_cases hf : s.finished = true
  · rw [next_of_finished hf]
    exact h hf
  obtain ⟨s', hskips, hcases⟩ := next_cases s (by simpa using hf)
  rcases hcases with ⟨hnil, heq⟩ | ⟨span, rest, c, -, -, heq⟩
  · rw [heq]
    exact hnil
  · -- a lexer that gives another token goes on
    rw [heq] at hnext
    have hs' : s'.finished = true := hnext
    rw [hskips.finished_eq] at hs'
    exact absurd hs' hf

/-- A lexer that has given the end of the input has read its text. -/
theorem rest_after_eq_nil {s : Lexer} (h : s.finished = true → s.rest = []) {n : ℕ}
    (hn : (s.after n).finished = true) : (s.after n).rest = [] := by
  suffices hall : ∀ n, (s.after n).finished = true → (s.after n).rest = [] from hall n hn
  intro n
  induction n with
  | zero => exact h
  | succ n ih =>
    rw [after_succ]
    exact rest_next_eq_nil ih

/-- When all tokens have been given, the lexer has counted one line more than there are line breaks. -/
theorem lineCount_after_tokensOf (limits : Limits) (preferences : Preferences) (source : String) :
    ((lexer limits preferences source).after (tokensOf source).length).metrics.lineCount =
      1 + source.toList.count '\n' := by
  obtain ⟨passed, hpassed⟩ := exists_passed limits.maxReportedIllegalChars preferences source.toList
    (tokensOf source).length
  change Passed _ _ _ ((lexer limits preferences source).after _) at hpassed
  have hremaining : ((lexer limits preferences source).after (tokensOf source).length).remaining = [] := by
    rw [remaining_after, remaining_of_not_finished rfl]
    exact List.drop_length
  have hrest : ((lexer limits preferences source).after (tokensOf source).length).rest = [] :=
    rest_after_eq_nil (by intro h; cases h) (finished_of_remaining_eq_nil hremaining)
  have hwhole : passed.flatMap Span.text = source.toList := by
    have hsplit := hpassed.split
    rwa [hrest, List.append_nil] at hsplit
  rw [hpassed.lines, hpassed.place, hwhole]
  rfl

/-- No token starts on a line behind the last one. -/
theorem line_le_of_mem_tokensOf {source : String} {t : Token} (ht : t ∈ tokensOf source) :
    t.position.line ≤ 1 + source.toList.count '\n' := by
  obtain ⟨n, hn, hget⟩ := List.mem_iff_getElem.mp ht
  -- whatever is chosen, the lexer of a text gives its tokens
  have hremaining : (ofList 0 ⟨false, false⟩ source.toList).remaining = tokensOf source :=
    remaining_of_not_finished rfl
  have hgiven : ((ofList 0 ⟨false, false⟩ source.toList).after n).next.token = some t := by
    rw [token_after, hremaining, List.getElem?_eq_getElem hn, hget]
  obtain ⟨before, hreads⟩ := (reads_ofList 0 ⟨false, false⟩ source.toList).after n
  obtain ⟨s, before', -, hs, hposition, -, -⟩ := next_token hreads hgiven
  have hcount : before'.count '\n' ≤ source.toList.count '\n' := by
    rw [← hs.split, List.count_append]
    exact Nat.le_add_right ..
  rw [hposition, hs.place]
  exact Nat.add_le_add_left hcount 1

end Lexer

/-! ### The lines of a text -/

/-- The line breaks of a text are one less than its lines and the empty line at its end, if there is one. -/
theorem Text.one_add_count_lineBreak (source : String) : 1 + source.toList.count '\n' =
    lineCount source + if source = "" ∨ source.toList.getLast? = some '\n' then 1 else 0 := by
  rw [lineCount_eq_linesOf, linesOf]
  cases hlast : source.toList.getLast? with
  | none =>
    have hempty : source = "" := String.toList_eq_nil_iff.mp (List.getLast?_eq_none_iff.mp hlast)
    simp [hempty]
  | some c =>
    have hnonempty : source ≠ "" := by
      rintro rfl
      simp at hlast
    by_cases hc : c = '\n'
    · simp [hc, Nat.add_comm]
    · simp [hc, hnonempty, Nat.add_comm]

/-! ### The lines of a file -/

section

variable {limits : Limits} {preferences : Lexer.Preferences} {source : String} {j : Log.Journal}

/-- A text that is accepted has been read to its end. -/
theorem metrics_of_analyze {a : Analysis} (h : (analyze limits preferences source j).1 = .ok a) :
    a.metrics = ((lexer limits preferences source).after (tokensOf source).length).metrics := by
  obtain ⟨judgement, hstops, houtcome⟩ := exists_stops_recognizing limits preferences source j
  have hanalysis : (analyze limits preferences source j).1 =
      (recognizing limits (lexer limits preferences source) j).1.1.map fun _ =>
        ⟨(recognizing limits (lexer limits preferences source) j).1.2.cursor.source.metrics,
          (recognizing limits (lexer limits preferences source) j).1.2.consumed⟩ := rfl
  rw [hanalysis, houtcome] at h
  cases judgement with
  | error cause => cases h
  | ok =>
    cases h
    have hsource := (Syntax.Parser.program_onDemand limits.maxParseDepth
      (lexer limits preferences source)).2.2
    -- the last token that the recognizer has asked for is the end of the input
    rw [length_tokensOf, ← (hstops.sentence_of_ok (eof_notMem_word _)).1]
    exact congrArg Lexer.metrics hsource

end

/-- A file that is read is told to have the lines of its text. -/
theorem SourceFile.lineCount_of_outcome {limits : Limits} {requireExtension : Bool} {path : String}
    {probe : Probe} {f : SourceFile} (h : outcome limits requireExtension path probe = .ok f) :
    f.metadata.lineCount = Text.lineCount f.text := by
  rcases outcome_cases limits path probe with ⟨e, -, he⟩ | ⟨-, m, contents, -, -, hadmitted⟩
  · cases (he requireExtension).symm.trans h
  · rw [hadmitted, admitted] at h
    split at h
    · cases h
    · split at h
      · cases h
      · rw [exists_of_taken_eq_ok h, taken, decoded] at h
        split at h
        · cases h
        · dsimp only at h
          split at h
          · cases h
          · cases h
            rfl

/-- A file that is checked has been read, and its text has been accepted. -/
theorem exists_of_checkFile_eq_ok {limits : Limits} {files : FileSettings}
    {preferences : Lexer.Preferences} {disk : String → Probe} {path : String} {j : Log.Journal}
    {c : Checked} (h : (checkFile limits files preferences disk path j).1 = .ok c) :
    ∃ f, SourceFile.outcome limits files.requireExtension path (disk path) = .ok f ∧
      c.metadata = f.metadata ∧ (analyze limits preferences f.text j).1 = .ok c.analysis := by
  rw [checkFile_eq limits preferences disk path j j] at h
  cases hread : SourceFile.outcome limits files.requireExtension path (disk path) with
  | error e =>
    rw [hread] at h
    cases h
  | ok f =>
    rw [hread] at h
    dsimp only at h
    unfold Checked.ofAnalysis at h
    cases ha : (analyze limits preferences f.text j).1 with
    | error e =>
      rw [ha] at h
      cases h
    | ok a =>
      rw [ha] at h
      cases h
      exact ⟨f, rfl, rfl, ha⟩

/-- **The two counts of lines agree.**  When all tokens of a text have been given, the lexer has counted the
lines of the text, and one more if the text is empty or ends with a line break; no token starts behind the
line that it has come to.  So the two counts that are told about a file that is accepted differ by at most
one, and the one of the lexer is never the smaller one. -/
theorem lineCount_drain_lexer (limits : Limits) (preferences : Lexer.Preferences) (source : String) :
    let run := TokenSource.drain (lexer limits preferences source)
    run.source.metrics.lineCount =
        Text.lineCount source +
          (if source = "" ∨ source.toList.getLast? = some '\n' then 1 else 0) ∧
      (∀ t ∈ run.tokens, t.position.line ≤ run.source.metrics.lineCount) ∧
      ∀ (files : FileSettings) (disk : String → Probe) (path : String) (j : Log.Journal) (c : Checked),
        (checkFile limits files preferences disk path j).1 = .ok c →
          c.metadata.lineCount ≤ c.analysis.metrics.lineCount ∧
            c.analysis.metrics.lineCount ≤ c.metadata.lineCount + 1 := by
  intro run
  have hlines (source : String) := Lexer.lineCount_after_tokensOf limits preferences source
  have hcount : run.source.metrics.lineCount = 1 + source.toList.count '\n' := by
    rw [← hlines source, ← Lexer.source_drain_lexer]
  refine ⟨hcount.trans (Text.one_add_count_lineBreak source), ?_, ?_⟩
  · intro t ht
    have htokens : run.tokens.toList = tokensOf source :=
      (TokenSource.tokens_drain _).trans (Lexer.toList_lexer ..)
    rw [hcount]
    exact Lexer.line_le_of_mem_tokensOf (htokens ▸ ht.val)
  · intro files disk path j c hc
    obtain ⟨f, hread, hmetadata, hanalysis⟩ := exists_of_checkFile_eq_ok hc
    rw [hmetadata, SourceFile.lineCount_of_outcome hread, metrics_of_analyze hanalysis, hlines,
      Text.one_add_count_lineBreak]
    constructor
    · exact Nat.le_add_right ..
    · apply Nat.add_le_add_left
      split
      · exact Nat.le_refl 1
      · exact Nat.zero_le 1

/-- A literal over two lines and a line break at the end: the lexer is on a third line then, which is none of
the lines of the text. -/
theorem lineCount_drain_lexer_of_stringLiteral :
    let limits := Profile.development.limits
    let preferences : Lexer.Preferences := ⟨false, false⟩
    let source := "f()\x7bx=\"a\nb\";\x7d\n"
    let disk (_ : String) : Probe := .file "/w/a.drac" source.toUTF8
    let run := TokenSource.drain (lexer limits preferences source)
    (∃ t ∈ run.tokens, t.position = ⟨3, 1⟩ ∧ 3 ≤ run.source.metrics.lineCount) ∧
      ∃ c, (checkFile limits ⟨true, false⟩ preferences disk "a.drac" (.empty ⟨.info, true, 0⟩)).1 =
          .ok c ∧
        c.metadata.lineCount = 2 ∧ c.analysis.metrics.lineCount = 3 ∧
        c.analysis.metrics.lineCount ≤ c.metadata.lineCount + 1 := by
  intro limits preferences source disk run
  have hread : SourceFile.outcome limits true "a.drac" (disk "a.drac") =
      .ok ⟨source, ⟨"/w/a.drac", 14, some "drac", 2⟩⟩ := by
    have hdescribe : SourceFile.describe "/w/a.drac" source.toUTF8.size =
        ⟨"/w/a.drac", 14, some "drac", 0⟩ := by decide +kernel
    have hlines : Text.lineCount source = 2 := by
      rw [Text.lineCount_eq_linesOf]
      decide +kernel
    have hempty : ¬ "a.drac".isEmpty = true := by decide
    rw [SourceFile.outcome.eq_def, if_neg hempty]
    show SourceFile.admitted limits true (SourceFile.describe "/w/a.drac" source.toUTF8.size) _ = _
    rw [hdescribe, SourceFile.admitted, SourceFile.taken, SourceFile.decoded,
      SourceFile.fromUTF8?_eq_some_iff.mpr rfl]
    dsimp only
    rw [hlines]
    rfl
  have hanalysis : (analyze limits preferences source (.empty ⟨.info, true, 0⟩)).1 =
      .ok ⟨⟨9, 0, 2, 1, 1, 5, 0, 0, 3, none⟩, 9⟩ := by decide +kernel
  have hchecked :
      (checkFile limits ⟨true, false⟩ preferences disk "a.drac" (.empty ⟨.info, true, 0⟩)).1 =
        .ok ⟨⟨"/w/a.drac", 14, some "drac", 2⟩, ⟨⟨9, 0, 2, 1, 1, 5, 0, 0, 3, none⟩, 9⟩⟩ := by
    rw [checkFile_eq limits preferences disk "a.drac" _ (.empty ⟨.info, true, 0⟩), hread]
    dsimp only
    rw [hanalysis]
    rfl
  have hend : Token.eof ⟨3, 1⟩ ∈ run.tokens := by
    rw [← Array.mem_toList_iff, TokenSource.tokens_drain, Lexer.toList_lexer]
    decide +kernel
  obtain ⟨-, htokens, hfiles⟩ := lineCount_drain_lexer limits preferences source
  exact ⟨⟨_, hend, rfl, htokens _ hend⟩, _, hchecked, rfl, rfl, (hfiles _ disk _ _ _ hchecked).2⟩

end Drac
