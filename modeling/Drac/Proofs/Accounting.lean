import Drac.Proofs.Counters

/-!
# What the counters of a lexer say

Each category but the end of the input belongs to one of six classes, and a token is counted by tests that
are made one after the other.  Whichever way the tests go, the counter that goes up is that of the class.
So after any number of requests the counters say how many tokens of each class have been given, and together
they say how many tokens there are.  Comments and lines are counted along the spans that have been passed.

## Main definitions

* `TokenClass`, `Category.class?` — the six classes, and the one that a category belongs to.
* `Metrics.counter` — the counter of a class.
* `Histogram.ofCategories` — how often each category occurs in a list.
* `Lexer.Passed` — a lexer has passed some spans, and its counters agree with them.

## Main results

* `Metrics.counts_counter` — each counter counts the tokens of its class.
* `Histogram.foldl_count` — counting categories one by one gives how often each of them occurs.
* `Lexer.Passed.next`, `Lexer.exists_passed` — what one request passes, and what any number of them has.
* `Lexer.metrics_after` — **the counters account for every token**, every comment and every line.
-/

namespace Drac

/-! ### Classes -/

/-- The classes of tokens that are counted one by one. -/
inductive TokenClass
  /-- A reserved word that is no literal. -/
  | keyword
  /-- A word that is not reserved. -/
  | identifier
  /-- A literal, `true` and `false` among them. -/
  | literal
  /-- A sign that joins or compares values, or the assignment sign. -/
  | operator
  /-- A sign that separates or encloses. -/
  | punctuation
  /-- A character that starts no token. -/
  | illegal
  deriving DecidableEq, Repr

/-- The class that a category belongs to; the end of the input belongs to none. -/
def Category.class? : Category → Option TokenClass
  | kwAnd | kwBreak | kwDec | kwDo | kwElif | kwElse | kwIf | kwInc | kwNot | kwOr | kwReturn
  | kwVar | kwWhile => some .keyword
  | identifier => some .identifier
  | kwTrue | kwFalse | intLiteral | charLiteral | stringLiteral => some .literal
  | assign | equal | notEqual | less | lessEqual | greater | greaterEqual | plus | minus | mul | div
  | mod => some .operator
  | comma | semicolon | openParen | closeParen | openBracket | closeBracket | openBrace
  | closeBrace => some .punctuation
  | illegalChar => some .illegal
  | eof => none

theorem Category.class?_eq_none_iff {c : Category} : c.class? = none ↔ c = .eof := by
  cases c <;> decide

namespace Lexer

namespace Metrics

/-- The counter of a class. -/
def counter (m : Metrics) : TokenClass → ℕ
  | .keyword => m.keywordTokens
  | .identifier => m.identifierTokens
  | .literal => m.literalTokens
  | .operator => m.operatorTokens
  | .punctuation => m.punctuationTokens
  | .illegal => m.illegalChars

/-- The tests that decide on a counter find that of the class. -/
theorem counts_counter (k : TokenClass) :
    Counts (fun m => m.counter k) fun c => c.class? == some k where
  token m c := by cases k <;> cases c <;> rfl
  comment _ := by cases k <;> rfl
  line _ _ := by cases k <;> rfl

/-- The tokens that have been counted as of some class. -/
def classified (m : Metrics) : ℕ :=
  m.counter .keyword + m.counter .identifier + m.counter .literal + m.counter .operator +
    m.counter .punctuation + m.counter .illegal

theorem counts_classified : Counts classified fun c => c.class?.isSome where
  token m c := by
    have htoken (k : TokenClass) := (counts_counter k).token m c
    -- the classes are disjoint, so at most one of the six counters goes up
    have hone : (c.class? == some .keyword).toNat + (c.class? == some .identifier).toNat +
        (c.class? == some .literal).toNat + (c.class? == some .operator).toNat +
        (c.class? == some .punctuation).toNat + (c.class? == some .illegal).toNat =
          c.class?.isSome.toNat := by cases c <;> rfl
    simp only [classified, htoken, ← hone]
    omega
  comment _ := rfl
  line _ _ := rfl

theorem commentCount_countToken (m : Metrics) (c : Category) :
    (m.countToken c).commentCount = m.commentCount := by cases c <;> rfl

theorem folds_categoryCounts : Folds categoryCounts fun h c => h.map (Histogram.count c) where
  token m c := by cases c <;> rfl
  comment _ := rfl
  line _ _ := rfl

end Metrics

/-! ### Histograms -/

namespace Histogram

/-- The entry of a category that occurs in a list. -/
def tally? (cs : List Category) (c : Category) : Option (Category × ℕ) :=
  if cs.count c = 0 then none else some (c, cs.count c)

/-- How often each category occurs in a list, in declaration order and without those that do not. -/
def ofCategories (cs : List Category) : Histogram := Category.all.filterMap (tally? cs)

theorem tally?_eq_some_iff {cs : List Category} {c : Category} {e : Category × ℕ} :
    tally? cs c = some e ↔ c = e.1 ∧ 0 < e.2 ∧ e.2 = cs.count e.1 := by
  rw [tally?, Option.ite_none_left_eq_some]
  constructor
  · rintro ⟨hne, he⟩
    cases he
    exact ⟨rfl, Nat.pos_of_ne_zero hne, rfl⟩
  · rintro ⟨rfl, hpos, he⟩
    exact ⟨he ▸ hpos.ne', by rw [← he]⟩

theorem tally?_concat_of_ne {c d : Category} (h : d ≠ c) (cs : List Category) :
    tally? (cs ++ [c]) d = tally? cs d := by
  have hcount : (cs ++ [c]).count d = cs.count d := by
    rw [List.count_append, List.count_singleton, if_neg (by simpa using h.symm), Nat.add_zero]
  rw [tally?, tally?, hcount]

theorem tally?_concat_self (c : Category) (cs : List Category) :
    tally? (cs ++ [c]) c = some (c, cs.count c + 1) := by
  rw [tally?, List.count_append, List.count_singleton_self, if_neg (Nat.succ_ne_zero _)]

/-- Where all categories come later, a category is put in front. -/
theorem count_of_forall_lt {c : Category} {h : Histogram} (hlt : ∀ e ∈ h, c.index < e.1.index) :
    h.count c = (c, 1) :: h := by
  cases h with
  | nil => rfl
  | cons e h =>
    have hc := hlt e List.mem_cons_self
    have hne : e.1 ≠ c := by
      rintro rfl
      exact Nat.lt_irrefl _ hc
    rw [count, if_neg hne, if_pos hc]

/-- Counting a category adds it to what has been counted, as long as the entries stand in order. -/
theorem count_filterMap_tally? {among : List Category}
    (hsorted : among.Pairwise fun c d => c.index < d.index) {c : Category} (hc : c ∈ among)
    (cs : List Category) :
    count c (among.filterMap (tally? cs)) = among.filterMap (tally? (cs ++ [c])) := by
  induction among with
  | nil => cases hc
  | cons d among ih =>
    obtain ⟨hlater, hsorted⟩ := List.pairwise_cons.mp hsorted
    by_cases hd : d = c
    · subst hd
      have hrest : among.filterMap (tally? (cs ++ [d])) = among.filterMap (tally? cs) := by
        refine List.filterMap_congr fun c' hc' => tally?_concat_of_ne ?_ cs
        rintro rfl
        exact Nat.lt_irrefl _ (hlater _ hc')
      rw [List.filterMap_cons, List.filterMap_cons, tally?_concat_self, hrest]
      by_cases hzero : cs.count d = 0
      · have hfront : ∀ e ∈ among.filterMap (tally? cs), d.index < e.1.index := by
          intro e he
          obtain ⟨c', hc', htally⟩ := List.mem_filterMap.mp he
          rw [← (tally?_eq_some_iff.mp htally).1]
          exact hlater c' hc'
        rw [tally?, if_pos hzero, hzero]
        exact count_of_forall_lt hfront
      · rw [tally?, if_neg hzero]
        exact if_pos rfl
    · have hmem : c ∈ among := (List.mem_cons.mp hc).resolve_left (Ne.symm hd)
      have hbefore : ¬ c.index < d.index := Nat.lt_asymm (hlater c hmem)
      rw [List.filterMap_cons, List.filterMap_cons, tally?_concat_of_ne hd, ← ih hsorted hmem]
      cases htally : tally? cs d with
      | none => rfl
      | some e =>
        obtain ⟨rfl, -, -⟩ := tally?_eq_some_iff.mp htally
        show count c (e :: _) = e :: count c _
        rw [count, if_neg hd, if_neg hbefore]

/-- Counting categories one by one gives how often each of them occurs. -/
theorem foldl_count (cs : List Category) : cs.foldl (fun h c => count c h) [] = ofCategories cs := by
  induction cs using List.reverseRecOn with
  | nil => decide
  | append_singleton cs c ih =>
    rw [List.foldl_concat, ih, ofCategories,
      count_filterMap_tally? Category.pairwise_all (Category.mem_all c)]
    rfl

theorem mem_ofCategories_iff {cs : List Category} {e : Category × ℕ} :
    e ∈ ofCategories cs ↔ 0 < e.2 ∧ e.2 = cs.count e.1 := by
  rw [ofCategories, List.mem_filterMap]
  simp only [tally?_eq_some_iff, Category.mem_all, true_and, exists_eq_left]

theorem pairwise_ofCategories (cs : List Category) :
    (ofCategories cs).Pairwise fun e e' => e.1.index < e'.1.index := by
  refine List.Pairwise.filterMap _ (fun c d hlt e he e' he' => ?_) Category.pairwise_all
  rw [← (tally?_eq_some_iff.mp he).1, ← (tally?_eq_some_iff.mp he').1]
  exact hlt

end Histogram

/-! ### What has been counted -/

section

variable (reportLimit : ℕ) (preferences : Preferences) (source : List Char) (n : ℕ)

/-- A counter that starts from nothing is the number of tokens given that it counts. -/
theorem Metrics.Counts.after_ofList {f : Metrics → ℕ} {p : Category → Bool} (h : Counts f p)
    (hzero : f (.initial preferences.trackCategories) = 0) :
    f ((ofList reportLimit preferences source).after n).metrics =
      ((ofList reportLimit preferences source).given n).countP fun t => p t.category := by
  have hstart : f (ofList reportLimit preferences source).metrics = 0 := hzero
  rw [h.after_given, hstart, Nat.zero_add]

/-- Every token given has been counted as of some class. -/
theorem classified_after : ((ofList reportLimit preferences source).after n).metrics.classified =
    ((ofList reportLimit preferences source).given n).length := by
  rw [Metrics.counts_classified.after_ofList reportLimit preferences source n rfl,
    List.countP_eq_length]
  intro t ht
  rw [Option.isSome_iff_ne_none, ne_eq, Category.class?_eq_none_iff]
  exact ne_eof_of_mem_given ht

/-- If categories are counted at all, it is known how often each one has been given. -/
theorem categoryCounts_after :
    ((ofList reportLimit preferences source).after n).metrics.categoryCounts =
      if preferences.trackCategories then
        some (Histogram.ofCategories
          (((ofList reportLimit preferences source).given n).map Token.category))
      else none := by
  rw [Metrics.folds_categoryCounts.after, ← Histogram.foldl_count]
  cases htrack : preferences.trackCategories with
  | true =>
    have hinitial : (ofList reportLimit preferences source).metrics.categoryCounts = some [] := by
      simp [ofList, Metrics.initial, htrack]
    rw [hinitial]
    exact List.foldl_hom some fun _ _ => rfl
  | false =>
    have hinitial : (ofList reportLimit preferences source).metrics.categoryCounts = none := by
      simp [ofList, Metrics.initial, htrack]
    rw [hinitial]
    exact List.foldl_fixed' (fun _ => rfl) _

end

/-! ### What has been passed -/

theorem Span.isComment_of_category? {span : Span} {c : Category} (h : span.category? = some c) :
    span.isComment = false := by
  unfold category? at h
  unfold isComment
  split at h
  all_goals simp_all

/-- A lexer has read some spans of a text and given some tokens for them; comments and lines are counted
along the spans. -/
structure Passed (source : List Char) (passed : List Span) (given : List Token) (s : Lexer) : Prop
    extends Reads source (passed.flatMap Span.text) s where
  spans_eq : passed ++ spans s.rest = spans source
  readings : given.map Token.reading = passed.filterMap Span.reading?
  comments : s.metrics.commentCount = passed.countP Span.isComment
  lines : s.metrics.lineCount = s.place.line

variable {source : List Char} {passed : List Span} {given : List Token} {s s' : Lexer}

theorem passed_ofList (reportLimit : ℕ) (preferences : Preferences) (source : List Char) :
    Passed source [] [] (ofList reportLimit preferences source) :=
  ⟨reads_ofList .., rfl, rfl, rfl, rfl⟩

theorem Passed.skip (h : Passed source passed given s) {span : Span} {rest : List Char}
    (hs : nextSpan? s.rest = some (span, rest)) (hc : span.category? = none) :
    Passed source (passed ++ [span]) given (s.skip span rest) where
  toReads := by
    rw [List.flatMap_append, List.flatMap_singleton]
    exact h.toReads.skip hs
  spans_eq := by
    rw [← h.spans_eq, spans_of_nextSpan? hs, List.append_assoc]
    rfl
  readings := by
    rw [h.readings, List.filterMap_append, List.filterMap_cons, Span.reading?_eq_map_category?, hc]
    exact (List.append_nil _).symm
  comments := by
    rw [List.countP_append, ← h.comments, List.countP_singleton]
    show (ite _ _ _ : Metrics).commentCount = _
    split <;> rfl
  lines := rfl

theorem Passed.emit (h : Passed source passed given s) {span : Span} {rest : List Char}
    (hs : nextSpan? s.rest = some (span, rest)) {c : Category} (hc : span.category? = some c) :
    Passed source (passed ++ [span])
      (given ++ [⟨some (String.ofList span.text), c, s.place.position⟩]) (s.emit span c rest).source where
  toReads := by
    rw [List.flatMap_append, List.flatMap_singleton]
    exact h.toReads.emit hs c
  spans_eq := by
    rw [← h.spans_eq, spans_of_nextSpan? hs, List.append_assoc]
    rfl
  readings := by
    rw [List.map_append, h.readings, List.filterMap_append, List.filterMap_cons,
      Span.reading?_eq_map_category?, hc]
    rfl
  comments := by
    rw [List.countP_append, ← h.comments, List.countP_singleton, Span.isComment_of_category? hc]
    exact Metrics.commentCount_countToken ..
  lines := rfl

theorem Passed.skips (h : Passed source passed given s) (hs : Skips s s') :
    ∃ passed', Passed source passed' given s' := by
  induction hs generalizing passed with
  | refl => exact ⟨passed, h⟩
  | skip hspan hc _ ih => exact ih (h.skip hspan hc)

/-- A request passes some more spans, for which at most one token is given. -/
theorem Passed.next (h : Passed source passed given s) :
    ∃ passed', Passed source passed' (given ++ s.next.token.toList.filter fun t => !t.isEof)
      s.next.source := by
  by_cases hf : s.finished
  · rw [next_of_finished hf]
    exact ⟨passed, by rwa [Option.toList_none, List.filter_nil, List.append_nil]⟩
  obtain ⟨s', hskips, hcases⟩ := next_cases s (by simpa using hf)
  obtain ⟨passed', h'⟩ := h.skips hskips
  rcases hcases with ⟨-, hnext⟩ | ⟨span, rest, c, hs, hc, hnext⟩
  · rw [hnext]
    refine ⟨passed', ?_⟩
    show Passed source passed' (given ++ []) s'.finish.source
    rw [List.append_nil]
    exact ⟨⟨h'.split, h'.place⟩, h'.spans_eq, h'.readings, h'.comments, h'.lines⟩
  · rw [hnext, filter_toList_emit hs hc]
    exact ⟨passed' ++ [span], h'.emit hs hc⟩

/-- Any number of requests has passed some spans, for which the tokens given have been given. -/
theorem exists_passed (reportLimit : ℕ) (preferences : Preferences) (source : List Char) (n : ℕ) :
    ∃ passed, Passed source passed ((ofList reportLimit preferences source).given n)
      ((ofList reportLimit preferences source).after n) := by
  induction n with
  | zero => exact ⟨[], passed_ofList ..⟩
  | succ n ih =>
    obtain ⟨passed, h⟩ := ih
    rw [after_succ, given_succ]
    exact h.next

/-- **The counters account for every token**, every comment and every line.  After any number of requests
there are as many tokens as have been given, the end of the input not counted, and the counters of the six
classes add up to them; each of these is the number of tokens of its class.  The comments are those among
the spans that have been passed, and there is a line more than there are line breaks in the text that they
make up.  If and only if it is asked for, there is a histogram: it stands in declaration order and has an
entry for each category of which tokens have been given, with their number, and no other one. -/
theorem metrics_after (reportLimit : ℕ) (preferences : Preferences) (source : String) (n : ℕ) :
    let start := ofString reportLimit preferences source
    let m := (start.after n).metrics
    let given := start.given n
    m.totalTokens = given.length ∧
      m.totalTokens = m.keywordTokens + m.identifierTokens + m.literalTokens + m.operatorTokens +
        m.punctuationTokens + m.illegalChars ∧
      (∀ k, m.counter k = given.countP fun t => t.category.class? == some k) ∧
      (∃ passed, passed ++ spans (start.after n).rest = spans source.toList ∧
        passed.flatMap Span.text ++ (start.after n).rest = source.toList ∧
        given.map Token.reading = passed.filterMap Span.reading? ∧
        m.commentCount = passed.countP Span.isComment ∧
        m.lineCount = 1 + (passed.flatMap Span.text).count '\n') ∧
      m.categoryCounts.isSome = preferences.trackCategories ∧
      ∀ h ∈ m.categoryCounts, h.Pairwise (fun e e' => e.1.index < e'.1.index) ∧
        (∀ c k, (c, k) ∈ h ↔ 0 < k ∧ k = given.countP fun t => t.category == c) ∧
        ∀ k, (.eof, k) ∉ h := by
  intro start m given
  have htotal : m.totalTokens = given.length :=
    (Metrics.counts_totalTokens.after_ofList reportLimit preferences source.toList n rfl).trans
      (congrFun List.countP_true given)
  have hclassified : m.classified = given.length :=
    classified_after reportLimit preferences source.toList n
  have hcounter (k : TokenClass) :
      m.counter k = given.countP fun t => t.category.class? == some k :=
    (Metrics.counts_counter k).after_ofList reportLimit preferences source.toList n
      (by cases k <;> rfl)
  obtain ⟨passed, hpassed⟩ := exists_passed reportLimit preferences source.toList n
  have hcounts : m.categoryCounts = _ :=
    categoryCounts_after reportLimit preferences source.toList n
  refine ⟨htotal, htotal.trans hclassified.symm, hcounter, ⟨passed, hpassed.spans_eq, hpassed.split,
    hpassed.readings, hpassed.comments, ?_⟩, ?_, ?_⟩
  · exact hpassed.lines.trans (congrArg Place.line hpassed.place)
  · rw [hcounts]
    cases preferences.trackCategories <;> rfl
  · intro h hh
    rw [hcounts, Option.mem_def, Option.ite_none_right_eq_some, Option.some_inj] at hh
    obtain ⟨-, rfl⟩ := hh
    have hcount (c : Category) :
        (given.map Token.category).count c = given.countP fun t => t.category == c :=
      List.countP_map ..
    refine ⟨Histogram.pairwise_ofCategories _, fun c k => ?_, fun k hk => ?_⟩
    · rw [← hcount]
      exact Histogram.mem_ofCategories_iff
    · obtain ⟨hpos, hk⟩ := Histogram.mem_ofCategories_iff.mp hk
      have hmem := List.count_pos_iff.mp (hk ▸ hpos)
      obtain ⟨t, ht, heof⟩ := List.mem_map.mp hmem
      exact ne_eof_of_mem_given ht heof

/-- Two keywords, a literal and three tokens more, one of which is the end of the input: `not` has an entry
in the histogram, and the end of the input has none. -/
theorem metrics_after_of_illegalChar :
    let start := ofString 20 ⟨true, true⟩ "if not x (* one\ntwo *) true $"
    let m := (start.after 6).metrics
    m.totalTokens = 5 ∧ m.counter .keyword = 2 ∧ m.counter .literal = 1 ∧ m.counter .illegal = 1 ∧
      ∃ h ∈ m.categoryCounts, (.kwNot, 1) ∈ h ∧ ∀ k, (.eof, k) ∉ h := by
  intro start m
  obtain ⟨htotal, -, hcounter, -, hsome, hentries⟩ :=
    metrics_after 20 ⟨true, true⟩ "if not x (* one\ntwo *) true $" 6
  have hgiven : (start.given 6).map Token.category =
      [.kwIf, .kwNot, .identifier, .kwTrue, .illegalChar] := by decide +kernel
  have hcount (p : Category → Bool) : (start.given 6).countP (fun t => p t.category) =
      [Category.kwIf, .kwNot, .identifier, .kwTrue, .illegalChar].countP p := by
    rw [← hgiven, List.countP_map]
    rfl
  have hclass (k : TokenClass) := (hcounter k).trans (hcount fun c => c.class? == some k)
  obtain ⟨h, hh⟩ := Option.isSome_iff_exists.mp hsome
  obtain ⟨-, hmem, heof⟩ := hentries h hh
  refine ⟨?_, hclass .keyword, hclass .literal, hclass .illegal, h, hh,
    (hmem .kwNot 1).mpr ⟨Nat.one_pos, ?_⟩, heof⟩
  · rw [htotal, ← List.length_map, hgiven]
    rfl
  · exact (hcount (· == .kwNot)).symm

end Lexer

end Drac
