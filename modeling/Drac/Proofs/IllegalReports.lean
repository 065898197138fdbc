import Drac.Proofs.Noninterference

/-!
# Reports of illegal characters

A lexer reports the first illegal characters of a text one by one.  It decides about a report by the counter
of illegal characters, which has counted the character at hand already, and yet exactly as many are reported
as were asked for.  The next one is reported as the one from which on there are no more reports.  White
space, comments, line breaks and other tokens in between make no difference.

## Main definitions

* `Lexer.illegal` — the illegal characters among some tokens.
* `Lexer.limitEvent` — what is logged about the first illegal character that is not reported by itself.
* `Lexer.reports` — what is to be logged about the illegal characters that a text starts with.

## Main results

* `Lexer.reports_append_singleton` — one more illegal character adds what the lexer logs about it.
* `Lexer.logged_reports` — so the requests before the end of the input log the reports about the tokens that
  they have given.
* `TokenSource.events_drain` — what a source logs while all its tokens are taken.
* `collectTokens_reports` — **reports are capped without loss**, and the counter knows of all illegal
  characters.
-/

namespace Drac

open Lexer (Span spans)
open Lexer.Metrics (Counts)
open Log (Event Journal)

namespace Lexer

/-! ### Reports -/

/-- The illegal characters among some tokens. -/
def illegal (ts : List Token) : List Token := ts.filter fun t => t.category == .illegalChar

theorem illegal_concat_of_eq {t : Token} (h : t.category = .illegalChar) (ts : List Token) :
    illegal (ts ++ [t]) = illegal ts ++ [t] := by
  unfold illegal
  rw [List.filter_append, List.filter_singleton, beq_iff_eq.mpr h]
  rfl

theorem illegal_concat_of_ne {t : Token} (h : t.category ≠ .illegalChar) (ts : List Token) :
    illegal (ts ++ [t]) = illegal ts := by
  unfold illegal
  rw [List.filter_append, List.filter_singleton, beq_eq_false_iff_ne.mpr h]
  exact List.append_nil _

/-- What is logged about the first illegal character that is not reported by itself. -/
def limitEvent (limit : ℕ) (t : Token) : Event :=
  ((Event.warning "Further illegal characters will not be reported"
    (some .illegalCharacterLimit)).located (some t.position)).attach "limit" (toString limit)

/-- What a lexer has to log about the illegal characters that a text starts with: it reports each one up to
the limit, and the next one as the one from which on there are no more reports. -/
def reports (s : Lexer) (ts : List Token) : List Event :=
  if s.preferences.warnOnIllegal then
    (ts.take s.reportLimit).map illegalEvent ++
      (ts[s.reportLimit]?.map (limitEvent s.reportLimit)).toList
  else []

@[simp] theorem reports_nil (s : Lexer) : s.reports [] = [] := by
  unfold reports
  split <;> simp

/-- One more illegal character adds what a lexer logs that has counted it. -/
theorem reports_append_singleton (s : Lexer) (ts : List Token) (t : Token) :
    s.reports (ts ++ [t]) = s.reports ts ++ s.illegalEvents (ts.length + 1) t.text t.position := by
  unfold reports illegalEvents
  cases s.preferences.warnOnIllegal with
  | false => rfl
  | true =>
    simp only [Bool.not_true, Bool.false_eq_true, if_true, if_false]
    rcases Nat.lt_trichotomy ts.length s.reportLimit with hlt | heq | hgt
    · -- there is room for one more
      have hlength : (ts ++ [t]).length ≤ s.reportLimit := by simpa using Nat.succ_le_of_lt hlt
      rw [if_pos (Nat.succ_le_of_lt hlt), List.take_of_length_le hlength, List.take_of_length_le hlt.le,
        List.getElem?_eq_none hlength, List.getElem?_eq_none hlt.le, List.map_append]
      simp [illegalEvent]
    · -- this is the first one that is not reported by itself
      have hlast : (ts ++ [t])[s.reportLimit]? = some t := by
        rw [← heq]
        exact List.getElem?_concat_length
      rw [if_neg (by omega), if_pos (by omega), List.take_append_of_le_length heq.ge, hlast,
        List.getElem?_eq_none heq.le]
      simp [limitEvent]
    · -- there is nothing left to say
      have hsame : (ts ++ [t])[s.reportLimit]? = ts[s.reportLimit]? := List.getElem?_append_left hgt
      rw [if_neg (by omega), if_neg (by omega), List.take_append_of_le_length hgt.le, hsame,
        List.append_nil]

/-! ### Requests -/

section

variable (limits : Limits) (preferences : Preferences) {source : String} {ts us : List Token}

/-- The counter of illegal characters counts those that have been given. -/
theorem illegalChars_after_lexer (h : tokensOf source = ts ++ us) :
    ((lexer limits preferences source).after ts.length).metrics.illegalChars =
      (illegal ts).length := by
  have hremaining : (lexer limits preferences source).remaining = ts ++ us :=
    (remaining_of_not_finished rfl).trans h
  have hcounted : Counts.counted (· == .illegalChar) = fun t => t.category == .illegalChar := by
    funext t
    unfold Counts.counted Token.isEof
    cases t.category <;> rfl
  rw [Metrics.counts_illegalChars.after, hremaining, List.take_left, hcounted,
    List.countP_eq_length_filter]
  exact Nat.zero_add _

/-- The requests before the end of the input log the reports about the tokens that they have given. -/
theorem logged_reports (h : tokensOf source = ts ++ us) (hts : ∀ t ∈ ts, t.isEof = false) :
    (lexer limits preferences source).logged ts.length =
      (lexer limits preferences source).reports (illegal ts) := by
  induction ts using List.reverseRecOn generalizing us with
  | nil => exact (reports_nil _).symm
  | append_singleton ts t ih =>
    have hbefore : tokensOf source = ts ++ (t :: us) := by
      rw [h, List.append_assoc]
      rfl
    have hfound : (tokensOf source)[ts.length]? = some t := by
      rw [hbefore, List.getElem?_append_right le_rfl, Nat.sub_self]
      rfl
    have hcount := illegalChars_after_lexer limits preferences h
    have hlegal : t.isEof = false := hts t (List.mem_append_right ts (List.mem_singleton_self t))
    have hprefix := ih hbefore fun u hu => hts u (List.mem_append_left [t] hu)
    rw [List.length_append, List.length_singleton] at hcount ⊢
    rw [logged_succ, hprefix, events_after_lexer limits preferences source hfound, eventsOf]
    by_cases hillegal : t.category = .illegalChar
    · -- the counter has counted this character
      rw [illegal_concat_of_eq hillegal, List.length_append, List.length_singleton] at hcount
      rw [if_pos hillegal, hcount, illegal_concat_of_eq hillegal, reports_append_singleton]
    · rw [if_neg hillegal, hlegal, illegal_concat_of_ne hillegal]
      exact List.append_nil _

/-- With the last request the end of the input is logged, and nothing is logged from there on. -/
theorem logged_length_tokensOf (source : String) :
    let s := lexer limits preferences source
    s.logged ((tokensOf source).length + 1) =
      s.reports (illegal (tokensOf source)) ++
        [endEvent (s.after (tokensOf source).length).metrics] := by
  intro s
  obtain ⟨ts, t, hsplit, heof⟩ := exists_tokensOf_eq_concat source
  have hlast : (tokensOf source)[ts.length]? = some t := by
    rw [hsplit]
    exact List.getElem?_concat_length
  have hlegal : t.category ≠ .illegalChar := by
    rw [Token.isEof_iff.mp heof]
    decide
  have hlength : (tokensOf source).length = ts.length + 1 := by simp [hsplit]
  have hfinished : (s.after (tokensOf source).length).finished = true := by
    apply finished_of_remaining_eq_nil
    rw [remaining_after, remaining_of_not_finished rfl]
    exact List.drop_length
  have hillegal : illegal (tokensOf source) = illegal ts := by
    rw [hsplit, illegal_concat_of_ne hlegal]
  rw [logged_succ, next_of_finished hfinished, hillegal, hlength, logged_succ,
    logged_reports limits preferences hsplit fun _ => isEof_eq_false_of_mem hsplit,
    events_after_lexer limits preferences source hlast, eventsOf, if_neg hlegal, if_pos heof]
  exact List.append_nil _

end

end Lexer

/-! ### Taking all tokens -/

/-- What a source logs while all its tokens are taken is what the requests log, the one after the last token
included. -/
theorem TokenSource.events_drain {σ : Type} [TokenSource σ] (s : σ) :
    (drain s).events.toList =
      (List.range ((toList s).length + 1)).flatMap fun i => (pull (after s i)).events := by
  suffices h : ∀ tokens events, (drainAfter tokens events s).events.toList = events.toList ++
      (List.range ((toList s).length + 1)).flatMap fun i => (pull (after s i)).events from h #[] #[]
  intro tokens events
  fun_induction drainAfter tokens events s with
  | case1 tokens events s es s' hp =>
    have hnone : (pull s).token = none := by rw [hp]
    rw [toList_of_token_eq_none hnone]
    show (events ++ es).toList = _ ++ List.flatMap _ [0]
    rw [List.flatMap_singleton]
    simp [after, hp]
  | case2 tokens events s t es s' hp ih =>
    have hsome : (pull s).token = some t := by rw [hp]
    have hafter (i : ℕ) : after s (i + 1) = after s' i := by
      show after (pull s).source i = _
      rw [hp]
    have hfirst : (pull (after s 0)).events = es := by
      show (pull s).events = es
      rw [hp]
    rw [ih, toList_of_token_eq_some hsome, hp, List.length_cons,
      List.range_succ_eq_map (n := (toList s').length + 1), List.flatMap_cons, List.flatMap_map, hfirst,
      Array.toList_appendList, List.append_assoc]
    simp only [hafter]

/-- **Reports of illegal characters are capped without loss.**  While the tokens of a text are listed, the
lexer counts all its illegal characters.  If warnings are wanted, it logs a warning for each of them in order,
up to the limit, with its place and its escaped text, and if there are more of them, one warning at the place
of the next one; otherwise it logs neither.  The only other event is the one at the end of the input.  The
journal gets what is logged, as far as it keeps it. -/
theorem collectTokens_reports (limits : Limits) (preferences : Lexer.Preferences) (source : String)
    (j : Journal) :
    let limit := limits.maxReportedIllegalChars
    let run := TokenSource.drain (lexer limits preferences source)
    let illegal := Lexer.illegal run.tokens.toList
    let reported := (illegal.take limit).map Lexer.illegalEvent
    let cut := (illegal[limit]?.map (Lexer.limitEvent limit)).toList
    let reports := if preferences.warnOnIllegal then reported ++ cut else []
    run.source.metrics.illegalChars = illegal.length ∧
      reported.length = min illegal.length limit ∧
      cut.length = (if limit < illegal.length then 1 else 0) ∧
      run.events.toList = reports ++ [Lexer.endEvent run.source.metrics] ∧
      collectTokens limits preferences source j =
        (run.tokens, j.extended (j.entries run.events.toList)) := by
  intro limit run illegal reported cut reports
  have htokens : run.tokens.toList = tokensOf source :=
    (TokenSource.tokens_drain _).trans (Lexer.toList_lexer ..)
  have hillegal : illegal = Lexer.illegal (tokensOf source) := congrArg Lexer.illegal htokens
  have hsource : run.source = (lexer limits preferences source).after (tokensOf source).length :=
    Lexer.source_drain_lexer ..
  refine ⟨?_, ?_, ?_, ?_, ?_⟩
  · rw [hsource, hillegal]
    exact Lexer.illegalChars_after_lexer limits preferences (List.append_nil _).symm
  · simp [reported, Nat.min_comm]
  · by_cases hmore : limit < illegal.length
    · simp [cut, hmore]
    · simp [cut, hmore]
  · have hevents := TokenSource.events_drain (lexer limits preferences source)
    have hlogged := Lexer.logged_length_tokensOf limits preferences source
    rw [Lexer.toList_lexer] at hevents
    dsimp only at hlogged
    rw [← hsource, ← hillegal] at hlogged
    exact hevents.trans hlogged
  · show (run.tokens, j.recordAll run.events) = _
    rw [Journal.recordAll, ← Array.foldl_toList, Journal.foldl_record]

end Drac
