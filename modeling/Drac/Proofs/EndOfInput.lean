import Drac.Proofs.Concatenation

/-!
# The end of the input

A lexer gives the end of the input itself, where its text ends.  A list of tokens may leave it out, and a
cursor then makes one up right behind the last token, on the line where that token starts.  For a text
that ends in a token this is the same place unless the token holds a line break, as only quoted literals
do: then the text ends on a line further down.

## Main results

* `Lexer.category?_of_lineBreak` — only quoted literals hold line breaks.
* `Place.position_behind_append_eq_iff` — counting on along the line is right where there is no line break.
* `Lexer.exists_of_getLast?_spans` — the last two tokens of a text that ends in a token.
* `position_eof_iterate_advance_iff` — **the end that a cursor makes up is the one of the text exactly if
  the last token holds no line break.**
-/

namespace Drac

/-! ### Places behind a text -/

namespace Place

theorem position_behind_append_of_notMem (before : List Char) {text : List Char} (h : '\n' ∉ text) :
    (behind (before ++ text)).position =
      ⟨(behind before).position.line, (behind before).position.column + text.length⟩ := by
  have hcolumn : before.length + text.length - lineStart before + 1 =
      before.length - lineStart before + 1 + text.length := by
    have hstart := lineStart_le before
    omega
  rw [← behind_along before h, along, position, behind, hcolumn]
  rfl

theorem line_position_behind_lt (before : List Char) {text : List Char} (h : '\n' ∈ text) :
    (behind before).position.line < (behind (before ++ text)).position.line := by
  show 1 + before.count '\n' < 1 + (before ++ text).count '\n'
  have hbreaks := List.count_pos_iff.mpr h
  rw [List.count_append]
  omega

/-- Counting on along the line leads behind a text exactly if the text holds no line break. -/
theorem position_behind_append_eq_iff (before text : List Char) :
    (behind (before ++ text)).position =
        ⟨(behind before).position.line, (behind before).position.column + text.length⟩ ↔
      '\n' ∉ text := by
  refine ⟨fun heq hmem => ?_, position_behind_append_of_notMem before⟩
  have hlt := line_position_behind_lt before hmem
  rw [heq] at hlt
  exact Nat.lt_irrefl _ hlt

end Place

namespace Lexer

variable {cs rest : List Char} {s last : Span}

/-! ### Tokens that hold line breaks -/

/-- A run of characters holds none that neither starts a run nor goes on with one. -/
theorem notMem_take_run {starts goesOn : Char → Bool} {b c : Char} {cs : List Char} {n : ℕ}
    (hstart : starts b = false) (hpart : goesOn b = false)
    (hn : (if starts c then some (1 + (cs.takeWhile goesOn).length) else none) = some n) :
    b ∉ (c :: cs).take n := by
  split at hn
  · next hc =>
    obtain rfl := Option.some.inj hn
    rw [Nat.add_comm, List.take_succ_cons, Pattern.take_length_takeWhile, List.mem_cons, not_or]
    refine ⟨?_, fun hmem => ?_⟩
    · rintro rfl
      cases hstart.symm.trans hc
    · cases hpart.symm.trans (List.mem_takeWhile_imp hmem)
  · cases hn

theorem text_of_symbol {first : Char} {more : List Char} {c : Category}
    (h : nextSpan? cs = some (s, rest)) (hr : s.rule = .symbol first more c) :
    s.text = first :: more := by
  obtain ⟨n, hn, htext, -⟩ := exists_of_nextSpan? h
  rw [hr] at hn
  cases cs with
  | nil => cases hn
  | cons d cs =>
    rw [Rule.width?] at hn
    split at hn
    · next hsign =>
      obtain rfl := Option.some.inj hn
      rw [Bool.and_eq_true, List.isPrefixOf_iff_prefix, List.prefix_iff_eq_take] at hsign
      obtain ⟨hfirst, hmore⟩ := hsign
      rw [htext, Nat.add_comm, List.take_succ_cons, ← hmore, of_decide_eq_true hfirst]
    · cases hn

/-- Only quoted literals are tokens that can hold a line break. -/
theorem category?_of_lineBreak (h : nextSpan? cs = some (s, rest)) (htoken : s.category?.isSome)
    (hmem : '\n' ∈ s.text) :
    s.category? = some .charLiteral ∨ s.category? = some .stringLiteral := by
  obtain ⟨n, hn, htext, -⟩ := exists_of_nextSpan? h
  obtain ⟨c, cs, rfl⟩ : ∃ c cs', cs = c :: cs' := by
    cases cs with
    | nil => rw [Rule.width?_nil] at hn; cases hn
    | cons c cs => exact ⟨c, cs, rfl⟩
  have hstart := startsAt_of_nextSpan? h
  cases hr : s.rule with
  | blockComment | lineComment | newline | whitespace =>
    rw [Span.category?, hr] at htoken
    cases htoken
  | charLiteral => exact .inl (by rw [Span.category?, hr]; rfl)
  | stringLiteral => exact .inr (by rw [Span.category?, hr]; rfl)
  | symbol first more category =>
    have hblank := (Rule.sign_of_mem_table s.rule (rule_mem_table h)).2 '\n'
    rw [text_of_symbol h hr] at hmem
    rw [hr] at hblank
    cases hblank hmem
  | intLiteral | word =>
    rw [hr, Rule.width?] at hn
    rw [htext] at hmem
    exact absurd hmem (notMem_take_run rfl rfl hn)
  | other =>
    rw [(eq_of_nextSpan?_single h (by rw [hr]; rfl)).1, List.mem_singleton] at hmem
    rw [hr, ← hmem] at hstart
    cases hstart

/-! ### The last tokens of a text -/

/-- Before the end of its input, a text that ends in a token has this token, in front of whose text it
stands. -/
theorem exists_of_getLast?_spans {c : Category} (before : List Char)
    (hlast : (spans cs).getLast? = some last) (hc : last.category? = some c) :
    ∃ front ts, front ++ last.text = cs ∧ nextSpan? last.text = some (last, []) ∧
      tokensFrom (.behind before) (spans cs) =
        ts ++ [⟨some (String.ofList last.text), c, (Place.behind (before ++ front)).position⟩,
          .eof (Place.behind (before ++ cs)).position] := by
  fun_induction spans cs generalizing before with
  | case1 cs hnone => cases hlast
  | case2 cs s rest hs ih =>
    have hplace : (Place.behind before).past s.rule.kind s.text = .behind (before ++ s.text) :=
      past_of_nextSpan? before hs
    rw [tokensFrom, hplace]
    cases hrest : spans rest with
    | nil =>
      obtain rfl : s = last := by
        rw [hrest] at hlast
        exact Option.some.inj hlast
      obtain rfl : rest = [] := by
        rw [← (tiles_spans rest).flatMap_text, hrest]
        rfl
      have htext : s.text = cs := (List.append_nil _).symm.trans (nextSpan?_append hs)
      refine ⟨[], [], htext, by rw [htext, hs], ?_⟩
      rw [hc, htext, List.append_nil]
      rfl
    | cons s' ss =>
      rw [hrest, List.getLast?_cons_cons, ← hrest] at hlast
      obtain ⟨front, ts, hfront, hlone, htokens⟩ := ih (before ++ s.text) hlast
      have hcs : before ++ s.text ++ rest = before ++ cs := by
        rw [List.append_assoc, nextSpan?_append hs]
      rw [hcs, List.append_assoc] at htokens
      rw [← hrest, htokens]
      have hsplit : s.text ++ front ++ last.text = cs := by
        rw [List.append_assoc, hfront, nextSpan?_append hs]
      cases s.category? with
      | none => exact ⟨s.text ++ front, ts, hsplit, hlone, rfl⟩
      | some c' =>
        exact ⟨s.text ++ front, ⟨some (String.ofList s.text), c', (Place.behind before).position⟩ :: ts,
          hsplit, hlone, rfl⟩

end Lexer

/-! ### Cursors that run out of tokens -/

open Lexer (Span spans)

/-- **The end of the input that a cursor makes up is where the text ends exactly if the last token of the
text holds no line break**, and otherwise it is on an earlier line. -/
theorem position_eof_iterate_advance_iff {source : String} {last : Span}
    (hlast : (spans source.toList).getLast? = some last) (htoken : last.category?.isSome)
    (limits : Limits) (preferences : Lexer.Preferences) (j : Log.Journal) :
    ∃ ts p q, (collectTokens limits preferences source j).1.toList = ts ++ [Token.eof p] ∧
      p = (Place.behind source.toList).position ∧
      (Cursor.advance^[ts.length] (Cursor.start ts)).consumed = ts.length ∧
      (Cursor.advance^[ts.length] (Cursor.start ts)).current = Token.eof q ∧
      (q = p ↔ '\n' ∉ last.text) ∧
      ('\n' ∈ last.text → q.line < p.line ∧
        (last.category? = some .charLiteral ∨ last.category? = some .stringLiteral)) := by
  obtain ⟨c, hc⟩ := Option.isSome_iff_exists.mp htoken
  obtain ⟨front, ts, hfront, hlone, htokens⟩ := Lexer.exists_of_getLast?_spans [] hlast hc
  rw [List.nil_append, List.nil_append] at htokens
  set t : Token := ⟨some (String.ofList last.text), c, (Place.behind front).position⟩ with ht
  have hall : tokensOf source = (ts ++ [t]) ++ [.eof (Place.behind source.toList).position] := by
    rw [List.append_assoc]
    exact htokens
  have hat := Cursor.at_iterate_advance_start (fun _ => isEof_eq_false_of_mem hall) (Nat.le_refl _)
  have hend : t.endPosition =
      ⟨(Place.behind front).position.line, (Place.behind front).position.column + last.text.length⟩ := by
    rw [Token.endPosition, Token.text, ht, Option.getD_some, String.length_ofList]
  refine ⟨ts ++ [t], (Place.behind source.toList).position, t.endPosition, ?_, rfl, hat.consumed_eq, ?_, ?_,
    fun hmem => ⟨?_, Lexer.category?_of_lineBreak hlone htoken hmem⟩⟩
  · rw [toList_collectTokens, hall]
  · rw [hat.current_eq, tokenAt_length, endToken, List.getLast?_concat]
    rfl
  · rw [hend, ← hfront, eq_comm]
    exact Place.position_behind_append_eq_iff front last.text
  · rw [hend, ← hfront]
    exact Place.line_position_behind_lt front hmem

/-- A string literal that holds a line break and a letter of two bytes. -/
theorem position_eof_iterate_advance_of_lineBreak :
    let limits := Profile.development.limits
    let source := "x = \"é\n\""
    let last : Span := ⟨.stringLiteral, ['"', 'é', '\n', '"']⟩
    (spans source.toList).getLast? = some last ∧ last.category?.isSome ∧
      ∃ ts p q, (collectTokens limits ⟨true, true⟩ source (.empty ⟨.info, true, 4096⟩)).1.toList =
          ts ++ [Token.eof p] ∧
        (Cursor.advance^[ts.length] (Cursor.start ts)).current = Token.eof q ∧ q ≠ p ∧
        q.line < p.line := by
  intro limits source last
  have hlast : (spans source.toList).getLast? = some last := by decide +kernel
  obtain ⟨ts, p, q, hts, -, -, hq, hiff, hlt⟩ :=
    position_eof_iterate_advance_iff hlast rfl limits ⟨true, true⟩ (.empty ⟨.info, true, 4096⟩)
  have hmem : '\n' ∈ last.text := by decide
  exact ⟨hlast, rfl, ts, p, q, hts, hq, fun heq => hiff.mp heq hmem, (hlt hmem).1⟩

/-- Behind a string literal over two lines the text ends on the second one, and a cursor that has run out
of tokens stands on the first. -/
theorem eof_of_stringLiteral_over_lines :
    let literal : Token := ⟨some "\"a\nb\"", .stringLiteral, ⟨1, 1⟩⟩
    let j := Log.Journal.empty ⟨.info, true, 4096⟩
    (collectTokens Profile.development.limits ⟨true, true⟩ "\"a\nb\"" j).1.toList =
        [literal] ++ [Token.eof ⟨2, 3⟩] ∧
      (Cursor.advance^[1] (Cursor.start [literal])).current = Token.eof ⟨1, 6⟩ := by
  intro literal j
  refine ⟨?_, by decide +kernel⟩
  rw [toList_collectTokens]
  decide +kernel

end Drac
