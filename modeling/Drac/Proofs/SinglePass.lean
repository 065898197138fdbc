import Drac.Proofs.Counters
import Drac.Proofs.TokensOfText

/-!
# A text in a single pass

A text is analyzed in one pass: the recognizer asks the lexer for a token when it needs one, and the
counters of the lexer are read where the recognizer has stopped.  The outcome is the one over the list
of all tokens.  A text that is accepted has been read to its end, white space and comments behind the
last token included, so the counters are those of the whole text.  A text that is rejected has been read
up to the token at which it was rejected.

## Main results

* `Lexer.after_length_remaining` — once all tokens have been given, requests change nothing.
* `Lexer.source_drain_lexer` — a lexer that has run dry has given as many tokens as the text has.
* `Lexer.metrics_after_tokens` — a counter of a text that has been read to its end.
* `analyze_singlePass` — **one pass comes to the same as two**, outcome and counters alike.
-/

namespace Drac

open Lexer.Metrics (Counts)
open Syntax (Parser)

/-! ### Lexers at the end of a text -/

namespace Lexer

theorem finished_of_remaining_eq_nil {s : Lexer} (h : s.remaining = []) : s.finished = true := by
  by_contra hf
  have hreading := reading_tokensFrom s.place (spans s.rest)
  rw [← remaining_of_not_finished (by simpa using hf), h] at hreading
  simp at hreading

/-- Once all tokens have been given, a request changes nothing. -/
theorem after_length_remaining (s : Lexer) :
    s.after (s.remaining.length + 1) = s.after s.remaining.length := by
  have hnil : (s.after s.remaining.length).remaining = [] := by
    rw [remaining_after, List.drop_length]
  rw [after_succ, next_of_finished (finished_of_remaining_eq_nil hnil)]

/-- A lexer that has run dry has given as many tokens as the text has. -/
theorem source_drain_lexer (limits : Limits) (preferences : Preferences) (source : String) :
    (TokenSource.drain (lexer limits preferences source)).source =
      (lexer limits preferences source).after (tokensOf source).length := by
  have hdrain := TokenSource.source_drain (lexer limits preferences source)
  have hafter := after_length_remaining (lexer limits preferences source)
  -- one request more finds that there is no further token
  rw [toList_lexer] at hdrain
  rw [remaining_of_not_finished rfl] at hafter
  rw [hdrain]
  exact hafter

/-- Of the tokens of a text those that are counted make up a part of its word. -/
theorem countP_counted_tokensOf (p : Category → Bool) (source : String) :
    (tokensOf source).countP (Counts.counted p) = (word (tokensOf source)).countP p := by
  rw [← map_category_filter_tokensOf, List.countP_map, List.countP_filter]
  exact List.countP_congr fun t _ => by rw [Counts.counted, Bool.and_comm]; rfl

/-- A counter of a text that has been read to its end. -/
theorem metrics_after_tokens {f : Metrics → ℕ} {p : Category → Bool} (h : Counts f p)
    (limits : Limits) (preferences : Preferences) (source : String) :
    f ((lexer limits preferences source).after (tokensOf source).length).metrics =
      f (.initial preferences.trackCategories) + (word (tokensOf source)).countP p := by
  have hremaining : (lexer limits preferences source).remaining = tokensOf source :=
    remaining_of_not_finished rfl
  rw [h.after, hremaining, List.take_length, countP_counted_tokensOf]
  rfl

end Lexer

/-! ### One pass -/

/-- **One pass comes to the same as two.**  Analyzing a text, recognizing it and recognizing the list of
its tokens have the same outcome, whatever was chosen about lexing and whatever has been logged.  If the
text is accepted, the analysis counts its tokens as the lexer does, with the counters of a lexer that has
given all its tokens, and no character was illegal.  If it is rejected, the lexer has been asked for the
tokens that were passed and for the one that was rejected, and has given these tokens of the list. -/
theorem analyze_singlePass (limits : Limits) (p q r : Lexer.Preferences) (source : String)
    (j j₁ j₂ j₃ : Log.Journal) :
    let tokens := (collectTokens limits r source j₁).1.toList
    let outcome := (recognize limits tokens j₂).1
    let parser := (recognizing limits (lexer limits p source) j).1.2
    (checkSource limits q source j₃).1 = outcome ∧
      match (analyze limits p source j).1 with
      | .ok a =>
        outcome = .ok () ∧ a.tokenCount = a.metrics.totalTokens ∧
          a.metrics.totalTokens = (tokens.filter fun t => !t.isEof).length ∧
          a.metrics = (TokenSource.drain (lexer limits p source)).source.metrics ∧
          a.metrics.illegalChars = 0
      | .error e =>
        outcome = .error e ∧ parser.consumed < tokens.length ∧
          parser.cursor.source = (lexer limits p source).after (parser.consumed + 1) ∧
          ∀ i ≤ parser.consumed,
            ((lexer limits p source).after i).next.token = tokens[i]? := by
  intro tokens outcome parser
  have htokens : tokens = tokensOf source := toList_collectTokens ..
  have hremaining : (lexer limits p source).remaining = tokensOf source :=
    Lexer.remaining_of_not_finished rfl
  have houtcome : outcome = (Parser.start limits.maxParseDepth (tokensOf source)).program.1 := by
    rw [← htokens]
    exact outcome_recognize ..
  obtain ⟨hlazy, hconsumed, hsource⟩ :=
    Parser.program_onDemand limits.maxParseDepth (lexer limits p source)
  rw [Lexer.toList_lexer] at hlazy hconsumed
  obtain ⟨judgement, hstops, hjudged⟩ :=
    Parser.exists_stops limits.maxParseDepth (tokensOf source)
  rw [← hconsumed] at hstops
  have hanalysis : (analyze limits p source j).1 = outcome.map fun _ =>
      ⟨parser.cursor.source.metrics, parser.consumed⟩ := by
    rw [houtcome, ← hlazy]
    rfl
  refine ⟨(outcome_checkSource ..).trans houtcome.symm, ?_⟩
  rw [hanalysis, htokens]
  cases judgement with
  | ok =>
    -- the run has passed all tokens but the end of the input, which it has seen
    have hok : outcome = .ok () := houtcome.trans hjudged
    obtain ⟨hk, hs⟩ := hstops.sentence_of_ok (eof_notMem_word _)
    have hend : parser.cursor.source = (lexer limits p source).after (tokensOf source).length := by
      rw [length_tokensOf, ← hk]
      exact hsource
    have htotal : parser.cursor.source.metrics.totalTokens = (word (tokensOf source)).length := by
      rw [hend, Lexer.metrics_after_tokens Lexer.Metrics.counts_totalTokens, List.countP_true]
      exact Nat.zero_add _
    rw [hok]
    refine ⟨rfl, hk.trans htotal.symm, ?_, ?_, ?_⟩
    · rw [length_filter_tokensOf]
      exact htotal
    · show parser.cursor.source.metrics = _
      rw [hend, Lexer.source_drain_lexer]
    · show parser.cursor.source.metrics.illegalChars = 0
      rw [hend, Lexer.metrics_after_tokens Lexer.Metrics.counts_illegalChars]
      exact (Nat.zero_add _).trans (List.count_eq_zero.mpr hs.notMem_illegalChar)
  | error cause =>
    have herror := houtcome.trans hjudged
    rw [herror]
    refine ⟨rfl, ?_, hsource, fun i hi => ?_⟩
    · rw [length_tokensOf]
      exact Nat.lt_succ_of_le hstops.le_length
    · rw [Lexer.token_after, hremaining]

end Drac
