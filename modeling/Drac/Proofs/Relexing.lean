import Drac.Proofs.Locality
import Drac.Proofs.Positions

/-!
# The text of a token alone

A token is cut out of a text by looking at what stands around it: a rule takes a run of characters up to one
that does not go on with it, and a bracket is a sign only if no comment ends further on.  None of this is
lost when the text of the token stands alone.  What is behind a span can be dropped like anything else that
is behind a seam, and a quote that stood for itself has nothing behind it that could close it.

## Main results

* `Rule.blockComment_width?_eq_none_of_append` — what starts no comment starts none when less follows.
* `nextSpan?_text` — a span alone is a span.
* `token_after_of_lexeme` — **the text of a token has this token and no other.**
-/

namespace Drac.Lexer

/-! ### Spans alone -/

/-- What starts no comment starts none when less follows. -/
theorem Rule.blockComment_width?_eq_none_of_append {text rest : List Char}
    (h : blockComment.width? (text ++ rest) = none) : blockComment.width? text = none := by
  rw [width?_blockComment_eq_none_iff] at h ⊢
  rintro ⟨u, rfl, hend⟩
  apply h
  refine ⟨u ++ rest, rfl, ?_⟩
  exact hend.trans (List.prefix_append u rest).isInfix

/-- A span alone is a span. -/
theorem nextSpan?_text {cs rest : List Char} {s : Span} (h : nextSpan? cs = some (s, rest)) :
    nextSpan? s.text = some (s, []) := by
  by_cases hquote : s.rule = .other ∧ (s.text = ['\''] ∨ s.text = ['"'])
  · -- nothing is behind the quote that could close a literal
    obtain ⟨rule, text⟩ := s
    obtain ⟨rfl, rfl | rfl⟩ := hquote <;> rfl
  · have hseam : Seam s rest [] := by
      refine ⟨.inr ?_, ?_, ?_⟩
      · intro c hc
        cases hc
      · intro hr
        rw [not_and, not_or] at hquote
        exact hquote hr
      · intro hnone
        rw [List.append_nil]
        exact Rule.blockComment_width?_eq_none_of_append hnone
    rw [← nextSpan?_append h] at h
    have halone := nextSpan?_of_seam h hseam
    rwa [List.append_nil] at halone

/-! ### Tokens alone -/

/-- A token that is not the end of the input comes from a span. -/
theorem exists_nextSpan?_of_token {lexer : Lexer} {t : Token} (ht : lexer.next.token = some t)
    (hne : t.isEof = false) : ∃ (cs rest : List Char) (s : Span),
      nextSpan? cs = some (s, rest) ∧ s.category? = some t.category ∧
        t.lexeme = some (String.ofList s.text) := by
  by_cases hf : lexer.finished = true
  · rw [next_of_finished hf] at ht
    cases ht
  · obtain ⟨lexer', -, hcases⟩ := next_cases lexer (by simpa using hf)
    rcases hcases with ⟨-, hnext⟩ | ⟨s, rest, c, hs, hc, hnext⟩
    · rw [hnext] at ht
      cases ht
      cases hne
    · rw [hnext] at ht
      cases ht
      exact ⟨_, rest, s, hs, hc, rfl⟩

/-- **The text of a token has this token and no other.**  It stands at the start, and behind it is the end of
the input. -/
theorem token_after_of_lexeme {reportLimit : ℕ} {preferences : Preferences} {source : String} {n : ℕ}
    {t : Token} (ht : ((ofString reportLimit preferences source).after n).next.token = some t)
    (hne : t.isEof = false) (reportLimit' : ℕ) (preferences' : Preferences) :
    ∃ text, t.lexeme = some text ∧
      ∀ k, ((ofString reportLimit' preferences' text).after k).next.token =
        [⟨some text, t.category, ⟨1, 1⟩⟩, Token.eof (Place.behind text.toList).position][k]? := by
  obtain ⟨cs, rest, s, hs, hc, hlexeme⟩ := exists_nextSpan?_of_token ht hne
  refine ⟨String.ofList s.text, hlexeme, fun k => ?_⟩
  have halone := nextSpan?_text hs
  have hplace : Place.start.past s.rule.kind s.text = .behind s.text :=
    past_of_nextSpan? [] halone
  have hspans : spans s.text = [s] := by
    rw [spans_of_nextSpan? halone, spans_nil]
  rw [token_after, remaining_of_not_finished rfl]
  show (tokensFrom .start (spans (String.ofList s.text).toList))[k]? = _
  rw [String.toList_ofList, hspans, tokensFrom, tokensFrom, hplace, hc]
  rfl

/-- A bracket in front of a star is a sign where no comment ends, and so it is alone. -/
theorem token_after_of_lexeme_openParen :
    ((ofString 20 ⟨true, true⟩ "x\n(* y").after 1).next.token =
        some ⟨some "(", .openParen, ⟨2, 1⟩⟩ ∧
      ∀ k, ((ofString 20 ⟨true, true⟩ "(").after k).next.token =
        [⟨some "(", .openParen, ⟨1, 1⟩⟩, Token.eof ⟨1, 2⟩][k]? := by
  have htoken : ((ofString 20 ⟨true, true⟩ "x\n(* y").after 1).next.token =
      some ⟨some "(", .openParen, ⟨2, 1⟩⟩ := by decide +kernel
  obtain ⟨text, htext, hall⟩ := token_after_of_lexeme htoken rfl 20 ⟨true, true⟩
  obtain rfl : "(" = text := Option.some.inj htext
  exact ⟨htoken, hall⟩

end Drac.Lexer
