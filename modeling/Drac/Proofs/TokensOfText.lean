import Drac.Analysis
import Drac.Proofs.OnDemand
import Drac.Proofs.Positions
import Drac.Proofs.Runs

/-!
# The tokens of a text

A text has a list of tokens, whoever asks for them and whatever is reported on the way.  Listing the
tokens of a text gives this list and recognizing the text is recognizing it, so what is proved about
lists of tokens holds of texts.

## Main definitions

* `tokensOf` — the tokens of a text, the end of the input included.

## Main results

* `Lexer.toList_eq_remaining` — a lexer gives what remains.
* `word_tokensOf` — the spans of a text that become tokens make up its word.
* `toList_collectTokens`, `outcome_checkSource` — **listing gives these tokens, and recognizing a text
  is recognizing them.**
* `exists_stops_recognizing` — where recognizing a text ends, and how.
-/

namespace Drac

open Lexer (Span spans)
open Syntax (Parser)

/-- The tokens of a text, the end of the input included. -/
def tokensOf (source : String) : List Token := Lexer.tokensFrom .start (spans source.toList)

namespace Lexer

/-- A lexer gives what remains. -/
theorem toList_eq_remaining (s : Lexer) : TokenSource.toList s = s.remaining := by
  generalize hts : s.remaining = ts
  induction ts generalizing s with
  | nil =>
    have hnone : s.next.token = none := by rw [(next_remaining s).1, hts]; rfl
    exact TokenSource.toList_of_token_eq_none hnone
  | cons t ts ih =>
    have hsome : s.next.token = some t := by rw [(next_remaining s).1, hts]; rfl
    have hrest : s.next.source.remaining = ts := by rw [(next_remaining s).2, hts]; rfl
    rw [TokenSource.toList_of_token_eq_some hsome]
    exact congrArg (t :: ·) (ih s.next.source hrest)

theorem toList_lexer (limits : Limits) (preferences : Preferences) (source : String) :
    TokenSource.toList (lexer limits preferences source) = tokensOf source :=
  (toList_eq_remaining _).trans (remaining_of_not_finished rfl)

theorem category?_ne_eof_of_mem_spans {cs : List Char} {s : Span} (h : s ∈ spans cs) :
    s.category? ≠ some .eof := by
  fun_induction spans cs with
  | case1 => cases h
  | case2 cs s' rest hs ih =>
    rcases List.mem_cons.mp h with rfl | hmem
    · exact Span.category?_ne_eof hs
    · exact ih hmem

end Lexer

/-! ### The word of a text -/

theorem map_category_tokensOf (source : String) : (tokensOf source).map Token.category =
    (spans source.toList).filterMap Span.category? ++ [.eof] := by
  have hreading := congrArg (List.map Prod.fst)
    (Lexer.reading_tokensFrom .start (spans source.toList))
  rw [List.map_append, List.map_map, List.map_filterMap] at hreading
  have hspan : (fun s : Span => s.reading?.map Prod.fst) = Span.category? := by
    funext s
    rw [Span.reading?_eq_map_category?, Option.map_map]
    exact Option.map_id' ..
  rw [hspan] at hreading
  exact hreading

/-- The end of the input comes last only. -/
theorem isEof_eq_false_of_mem {source : String} {ts : List Token} {t u : Token}
    (hts : tokensOf source = ts ++ [u]) (ht : t ∈ ts) : t.isEof = false := by
  have hcategories := map_category_tokensOf source
  rw [hts, List.map_append] at hcategories
  obtain ⟨hinit, -⟩ := List.append_inj' hcategories rfl
  have hmem : t.category ∈ (spans source.toList).filterMap Span.category? := by
    rw [← hinit]
    exact List.mem_map_of_mem ht
  obtain ⟨s, hs, hcategory⟩ := List.mem_filterMap.mp hmem
  have hne : t.category ≠ .eof := by
    intro heof
    rw [heof] at hcategory
    exact Lexer.category?_ne_eof_of_mem_spans hs hcategory
  simpa [Token.isEof] using hne

/-- The end of the input is the last token of a text. -/
theorem exists_tokensOf_eq_concat (source : String) :
    ∃ ts t, tokensOf source = ts ++ [t] ∧ t.isEof = true := by
  obtain ⟨ts, us, hsplit, -, hus⟩ := List.map_eq_append_iff.mp (map_category_tokensOf source)
  obtain ⟨t, rfl, ht⟩ := List.map_eq_singleton_iff.mp hus
  exact ⟨ts, t, hsplit, Token.isEof_iff.mpr ht⟩

theorem word_eq_takeWhile (ts : List Token) :
    word ts = (ts.map Token.category).takeWhile (· != .eof) := by
  rw [List.takeWhile_map]
  rfl

/-- The word of a text comes from the spans that become tokens. -/
theorem word_tokensOf (source : String) :
    word (tokensOf source) = (spans source.toList).filterMap Span.category? := by
  rw [word_eq_takeWhile, map_category_tokensOf, List.takeWhile_append_of_pos]
  · simp
  · intro c hc
    obtain ⟨s, hs, hcat⟩ := List.mem_filterMap.mp hc
    rw [bne_iff_ne]
    rintro rfl
    exact Lexer.category?_ne_eof_of_mem_spans hs hcat

theorem length_tokensOf (source : String) :
    (tokensOf source).length = (word (tokensOf source)).length + 1 := by
  have hlength := congrArg List.length (map_category_tokensOf source)
  rw [List.length_map, List.length_append] at hlength
  rw [hlength, word_tokensOf]
  rfl

/-- Apart from the end of the input the tokens of a text make up its word. -/
theorem map_category_filter_tokensOf (source : String) :
    ((tokensOf source).filter fun t => !t.isEof).map Token.category = word (tokensOf source) := by
  have hcategories := map_category_tokensOf source
  rw [← word_tokensOf] at hcategories
  have hword : (word (tokensOf source)).filter (· != .eof) = word (tokensOf source) := by
    refine List.filter_eq_self.mpr fun c hc => ?_
    rw [bne_iff_ne]
    rintro rfl
    exact eof_notMem_word _ hc
  calc ((tokensOf source).filter fun t => !t.isEof).map Token.category
      = ((tokensOf source).map Token.category).filter (· != .eof) := by
        rw [List.filter_map]
        rfl
    _ = (word (tokensOf source)).filter (· != .eof) := by
        rw [hcategories, List.filter_append]
        exact List.append_nil _
    _ = word (tokensOf source) := hword

theorem length_filter_tokensOf (source : String) :
    ((tokensOf source).filter fun t => !t.isEof).length = (word (tokensOf source)).length := by
  rw [← map_category_filter_tokensOf, List.length_map]

/-! ### Listing and recognizing -/

variable (limits : Limits) (preferences : Lexer.Preferences) (source : String) (j : Log.Journal)

/-- Listing the tokens of a text gives its tokens. -/
theorem toList_collectTokens :
    (collectTokens limits preferences source j).1.toList = tokensOf source :=
  (TokenSource.tokens_drain _).trans (Lexer.toList_lexer ..)

/-- What is logged has no influence on what is recognized. -/
theorem outcome_recognize {σ : Type} [TokenSource σ] (s : σ) :
    (recognize limits s j).1 = (Parser.start limits.maxParseDepth s).program.1 := rfl

/-- Recognizing a text is recognizing its tokens. -/
theorem outcome_checkSource : (checkSource limits preferences source j).1 =
    (Parser.start limits.maxParseDepth (tokensOf source)).program.1 := by
  rw [← Lexer.toList_lexer limits preferences source]
  exact (Parser.program_onDemand ..).1

/-- Recognizing a text passes as many tokens as recognizing its tokens. -/
theorem consumed_recognizing :
    (recognizing limits (lexer limits preferences source) j).1.2.consumed =
      (Parser.start limits.maxParseDepth (tokensOf source)).program.2.consumed := by
  rw [← Lexer.toList_lexer limits preferences source]
  exact (Parser.program_onDemand ..).2.1

/-- Recognizing a text ends where the run over its word stops, with the judgement told about the token
there. -/
theorem exists_stops_recognizing :
    let run := (recognizing limits (lexer limits preferences source) j).1
    ∃ judgement, Syntax.Stops limits.maxParseDepth (word (tokensOf source)) run.2.consumed judgement ∧
      run.1 = judgement.mapError (Syntax.Refusal.error limits.maxParseDepth
        (tokenAt (tokensOf source) run.2.consumed)) := by
  intro run
  obtain ⟨judgement, hstops, hjudged⟩ :=
    Parser.exists_stops limits.maxParseDepth (tokensOf source)
  rw [← consumed_recognizing limits preferences source j] at hstops hjudged
  exact ⟨judgement, hstops, (outcome_checkSource limits preferences source j).trans hjudged⟩

end Drac
