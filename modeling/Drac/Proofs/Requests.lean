import Drac.Lexer
import Drac.Proofs.Tiling
import Mathlib.Logic.Function.Iterate

/-!
# Requests to a lexer

What a lexer still has to give is a list: one token for each span that becomes one, and the end of
the input.  A request takes the first token off it, so the answers to all requests are this list and
nothing afterwards.

## Main definitions

* `Lexer.Skips` — a lexer passes spans that become no token.
* `Lexer.tokensFrom`, `Lexer.remaining` — the tokens of spans, and those a lexer still has to give.
* `Lexer.after` — a lexer after some requests.
* `Token.reading`, `Lexer.Span.reading?` — what a token says, and what that of a span has to say.

## Main results

* `Lexer.next_cases` — what one request does.
* `Lexer.next_remaining` — a request takes the first token off what remains.
* `Lexer.token_after` — the answer to any request.
* `Lexer.reading_after` — **the text is tiled, and the tokens are those of its tiles.**
-/

namespace Drac

namespace Lexer

/-! ### One request -/

/-- A lexer passes spans that become no token. -/
inductive Skips : Lexer → Lexer → Prop
  | refl (s : Lexer) : Skips s s
  | skip {s s' : Lexer} {span : Span} {rest : List Char}
      (hs : nextSpan? s.rest = some (span, rest)) (hc : span.category? = none)
      (h : Skips (s.skip span rest) s') : Skips s s'

/-- Before the end of the input a request passes what becomes no token and then gives the token of
the next span, or the end of the input if there is none. -/
theorem next_cases (s : Lexer) (hf : s.finished = false) : ∃ s', Skips s s' ∧
    (s'.rest = [] ∧ s.next = s'.finish ∨
      ∃ span rest c, nextSpan? s'.rest = some (span, rest) ∧ span.category? = some c ∧
        s.next = s'.emit span c rest) := by
  fun_induction next s with
  | case1 s hfin =>
    rw [hf] at hfin
    cases hfin
  | case2 s _ hnone => exact ⟨s, .refl s, .inl ⟨nextSpan?_eq_none_iff.mp hnone, rfl⟩⟩
  | case3 s _ span rest hs hc ih =>
    obtain ⟨s', hskips, hcases⟩ := ih hf
    exact ⟨s', .skip hs hc hskips, hcases⟩
  | case4 s _ span rest hs c hc => exact ⟨s, .refl s, .inr ⟨span, rest, c, hs, hc, rfl⟩⟩

theorem next_of_finished {s : Lexer} (hf : s.finished = true) : s.next = ⟨none, [], s⟩ := by
  rw [next, if_pos hf]

theorem next_of_nextSpan?_eq_none {s : Lexer} (hf : s.finished = false)
    (hnone : nextSpan? s.rest = none) : s.next = s.finish := by
  rw [next, if_neg (by simp [hf])]
  split
  · rfl
  · next hs => rw [hnone] at hs; cases hs

theorem next_of_nextSpan? {s : Lexer} {span : Span} {rest : List Char} (hf : s.finished = false)
    (hs : nextSpan? s.rest = some (span, rest)) :
    s.next = match span.category? with
      | none => (s.skip span rest).next
      | some c => s.emit span c rest := by
  rw [next, if_neg (by simp [hf])]
  split
  · next hnone => rw [hs] at hnone; cases hnone
  · next hs' => rw [hs] at hs'; cases hs'; rfl

theorem Skips.finished_eq {s s' : Lexer} (h : Skips s s') : s'.finished = s.finished := by
  induction h with
  | refl => rfl
  | skip _ _ _ ih => rw [ih]; rfl

/-! ### What remains -/

/-- The tokens of spans, the first of which stands at a place, and the end of the input. -/
def tokensFrom (p : Place) : List Span → List Token
  | [] => [Token.eof p.position]
  | s :: ss =>
    let more := tokensFrom (p.past s.rule.kind s.text) ss
    match s.category? with
    | none => more
    | some c => ⟨some (String.ofList s.text), c, p.position⟩ :: more

/-- What a lexer still has to give. -/
def remaining (s : Lexer) : List Token :=
  if s.finished then [] else tokensFrom s.place (spans s.rest)

theorem remaining_of_finished {s : Lexer} (hf : s.finished = true) : s.remaining = [] := by
  rw [remaining, if_pos hf]

theorem remaining_of_not_finished {s : Lexer} (hf : s.finished = false) :
    s.remaining = tokensFrom s.place (spans s.rest) := by
  rw [remaining, hf]
  rfl

theorem remaining_skip {s : Lexer} {span : Span} {rest : List Char}
    (hs : nextSpan? s.rest = some (span, rest)) (hc : span.category? = none) :
    (s.skip span rest).remaining = s.remaining := by
  rw [remaining, remaining, spans_of_nextSpan? hs, tokensFrom, hc]
  rfl

theorem Skips.remaining_eq {s s' : Lexer} (h : Skips s s') : s'.remaining = s.remaining := by
  induction h with
  | refl => rfl
  | skip hs hc _ ih => rw [ih, remaining_skip hs hc]

/-- A request takes the first token off what remains. -/
theorem next_remaining (s : Lexer) :
    s.next.token = s.remaining.head? ∧ s.next.source.remaining = s.remaining.tail := by
  by_cases hf : s.finished
  · rw [next_of_finished hf, remaining_of_finished hf]
    exact ⟨rfl, rfl⟩
  have hf : s.finished = false := by simpa using hf
  obtain ⟨s', hskips, hcases⟩ := next_cases s hf
  have hf' : s'.finished = false := hskips.finished_eq.trans hf
  rw [← hskips.remaining_eq, remaining_of_not_finished hf']
  rcases hcases with ⟨hnil, hnext⟩ | ⟨span, rest, c, hs, hc, hnext⟩
  · rw [hnext, hnil, spans_nil]
    exact ⟨rfl, remaining_of_finished rfl⟩
  · rw [hnext, spans_of_nextSpan? hs, tokensFrom, hc]
    exact ⟨rfl, remaining_of_not_finished hf'⟩

/-! ### Any number of requests -/

/-- A lexer after some requests. -/
def after (s : Lexer) (n : ℕ) : Lexer := (fun s => s.next.source)^[n] s

theorem after_succ (s : Lexer) (n : ℕ) : s.after (n + 1) = (s.after n).next.source :=
  Function.iterate_succ_apply' ..

theorem remaining_after (s : Lexer) (n : ℕ) : (s.after n).remaining = s.remaining.drop n := by
  induction n with
  | zero => rfl
  | succ n ih => rw [after_succ, (next_remaining _).2, ih, List.tail_drop]

/-- The answers to all requests are what remained before the first. -/
theorem token_after (s : Lexer) (n : ℕ) : (s.after n).next.token = s.remaining[n]? := by
  rw [(next_remaining _).1, remaining_after, List.head?_drop]

end Lexer

/-! ### What the tokens say -/

/-- What a token is and the text that it was read from. -/
def Token.reading (t : Token) : Category × Option String := (t.category, t.lexeme)

namespace Lexer

/-- What the token of a span has to say, read off the rule: comments and white space become no
token, and a word is looked up among the reserved ones. -/
def Span.reading? (s : Span) : Option (Category × Option String) :=
  let text := String.ofList s.text
  match s.rule with
  | .blockComment | .lineComment | .newline | .whitespace => none
  | .symbol _ _ c => some (c, text)
  | .charLiteral => some (.charLiteral, text)
  | .stringLiteral => some (.stringLiteral, text)
  | .intLiteral => some (.intLiteral, text)
  | .word => some ((Category.ofReservedWord? text).getD .identifier, text)
  | .other => some (.illegalChar, text)

theorem Span.reading?_eq_map_category? (s : Span) :
    s.reading? = s.category?.map fun c => (c, some (String.ofList s.text)) := by
  rw [reading?, category?]
  cases s.rule <;> rfl

theorem reading_tokensFrom (p : Place) (ss : List Span) :
    (tokensFrom p ss).map Token.reading = ss.filterMap Span.reading? ++ [(.eof, none)] := by
  induction ss generalizing p with
  | nil => rfl
  | cons s ss ih =>
    rw [tokensFrom, List.filterMap_cons, Span.reading?_eq_map_category?]
    cases s.category? with
    | none => exact ih _
    | some c =>
      rw [List.map_cons, ih]
      rfl

/-- The spans of a text tile it, and the requests to its lexer are answered by one token for each
span that is no comment and no white space, then by the end of the input, and then by nothing. -/
theorem reading_after (reportLimit : ℕ) (preferences : Preferences) (source : String) :
    Tiles source.toList (spans source.toList) ∧
      (spans source.toList).flatMap Span.text = source.toList ∧
      ∀ n, ((ofString reportLimit preferences source).after n).next.token.map Token.reading =
        ((spans source.toList).filterMap Span.reading? ++ [(.eof, none)])[n]? := by
  have htiles := tiles_spans source.toList
  refine ⟨htiles, htiles.flatMap_text, fun n => ?_⟩
  rw [token_after, ← List.getElem?_map, remaining_of_not_finished rfl, reading_tokensFrom]
  rfl

end Lexer

end Drac
