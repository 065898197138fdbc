import Drac.Proofs.Requests
import Mathlib.Data.List.DropRight

/-!
# Positions of tokens

The place of a lexer is moved on in different ways: over one line break, over what holds none, and
over a text that may hold some, the last of which is found from the end.  All of them lead to the
place that the characters read so far determine: as many lines down as there are line breaks, and as
far into the line as there are characters behind the last one.

## Main definitions

* `lineStart` — where the last line of a text starts.
* `Place.behind` — the place behind a text.
* `Lexer.Reads` — a lexer has read a part of a text and is at the place behind it.

## Main results

* `Place.behind_past` — whatever a rule has taken leads to the place behind it.
* `Lexer.Reads.after` — so a lexer is always at the place behind what it has read.
* `Lexer.position_after` — **the position of every token is where its text starts.**
-/

namespace Drac

/-! ### Lines -/

/-- The number of characters up to the last line break of a text, which is included. -/
def lineStart (text : List Char) : ℕ := (text.rdropWhile (· != '\n')).length

theorem lineStart_le (text : List Char) : lineStart text ≤ text.length :=
  (List.rdropWhile_prefix _ text).length_le

theorem lineStart_append_of_notMem (before : List Char) {line : List Char} (h : '\n' ∉ line) :
    lineStart (before ++ line) = lineStart before := by
  induction line using List.reverseRecOn with
  | nil => rw [List.append_nil]
  | append_singleton line c ih =>
    have hc : c ≠ '\n' := by
      rintro rfl
      exact h (by simp)
    have hline : '\n' ∉ line := fun hmem => h (by simp [hmem])
    rw [lineStart, ← List.append_assoc, List.rdropWhile_concat_pos _ _ _ (by simpa using hc)]
    exact ih hline

theorem lineStart_append_lineBreak (before : List Char) {line : List Char} (h : '\n' ∉ line) :
    lineStart (before ++ '\n' :: line) = before.length + 1 := by
  rw [List.append_cons, lineStart_append_of_notMem _ h, lineStart,
    List.rdropWhile_concat_neg _ _ _ (by simp), List.length_append]
  rfl

/-- A text without line breaks is a line, and any other one ends in a line behind its last. -/
theorem eq_append_lineBreak_of_mem {text : List Char} (h : '\n' ∈ text) :
    ∃ lines line, text = lines ++ '\n' :: line ∧ '\n' ∉ line := by
  obtain ⟨line, lines, heq, hline⟩ := List.eq_append_cons_of_mem (List.mem_reverse.mpr h)
  refine ⟨lines.reverse, line.reverse, ?_, fun hmem => hline (List.mem_reverse.mp hmem)⟩
  rw [← List.reverse_reverse text, heq]
  simp

/-! ### Places -/

namespace Place

/-- The place behind a text: a line break more is a line more, and the line starts behind the last
one. -/
def behind (before : List Char) : Place := ⟨1 + before.count '\n', lineStart before, before.length⟩

theorem behind_along (before : List Char) {text : List Char} (h : '\n' ∉ text) :
    (behind before).along text.length = behind (before ++ text) := by
  rw [behind, behind, lineStart_append_of_notMem before h, List.count_append,
    List.count_eq_zero.mpr h, List.length_append]
  rfl

theorem behind_newline (before : List Char) :
    ((behind before).along 1).startLine 1 (before.length + 1) = behind (before ++ ['\n']) := by
  rw [behind, behind, lineStart_append_lineBreak before (by simp), List.count_append,
    List.length_append]
  rfl

theorem findIdx?_eq_none_of_notMem {text : List Char} (h : '\n' ∉ text) :
    text.findIdx? (· == '\n') = none := by
  rw [List.findIdx?_eq_none_iff]
  intro c hc
  rw [beq_eq_false_iff_ne]
  rintro rfl
  exact h hc

/-- The last line break is as far from the end as the last line is long. -/
theorem findIdx?_reverse (lines : List Char) {line : List Char} (h : '\n' ∉ line) :
    (lines ++ '\n' :: line).reverse.findIdx? (· == '\n') = some line.length := by
  have hline := findIdx?_eq_none_of_notMem fun hmem => h (List.mem_reverse.mp hmem)
  rw [List.reverse_append, List.reverse_cons, List.append_assoc, List.findIdx?_append, hline,
    List.singleton_append, List.findIdx?_cons, if_pos (by simp)]
  simp

theorem behind_cross (before text : List Char) :
    (behind before).cross text = behind (before ++ text) := by
  by_cases h : '\n' ∈ text
  · obtain ⟨lines, line, htext, hline⟩ := eq_append_lineBreak_of_mem h
    have hfound : text.reverse.findIdx? (· == '\n') = some line.length := by
      rw [htext, findIdx?_reverse lines hline]
    have hstart : lineStart (before ++ text) = before.length + text.length - line.length := by
      rw [htext, ← List.append_assoc, lineStart_append_lineBreak _ hline]
      simp only [List.length_append, List.length_cons]
      omega
    rw [cross, hfound, behind, behind, hstart, List.count_append, List.length_append,
      ← Nat.add_assoc]
    rfl
  · have hnone := findIdx?_eq_none_of_notMem fun hmem => h (List.mem_reverse.mp hmem)
    rw [cross, hnone]
    exact behind_along before h

end Place

namespace Lexer

/-! ### What the rules take -/

theorem text_of_newline {cs rest : List Char} {s : Span} (h : nextSpan? cs = some (s, rest))
    (hr : s.rule = .newline) : s.text = ['\n'] := by
  obtain ⟨n, hn, htext, -⟩ := exists_of_nextSpan? h
  rw [hr] at hn
  unfold Rule.width? at hn
  split at hn <;> try contradiction
  obtain rfl : 1 = n := Option.some.inj hn
  exact htext

/-- The rule for line breaks stands before that for white space. -/
theorem notMem_text_of_whitespace {cs rest : List Char} {s : Span}
    (h : nextSpan? cs = some (s, rest)) (hr : s.rule = .whitespace) : '\n' ∉ s.text := by
  -- white space includes the line break, so only the order of the rules keeps it out
  have hbefore : Rule.newline.index < s.rule.index := by rw [hr]; decide
  have hnone := (nextSpan?_eq_some_iff.mp h).rests_eq_nil hbefore
  obtain ⟨n, hn, htext, -⟩ := exists_of_nextSpan? h
  rw [hr] at hn
  cases cs with
  | nil =>
    rw [Rule.width?_nil] at hn
    cases hn
  | cons c cs =>
    have hone : n = 1 := by
      rw [Rule.width?] at hn
      split at hn <;> simp_all
    have hc : c ≠ '\n' := by
      rintro rfl
      rw [Rule.pattern, Pattern.rests_char_cons, if_pos rfl] at hnone
      cases hnone
    rw [htext, hone]
    simpa using hc.symm

theorem notMem_text_of_lineComment {cs rest : List Char} {s : Span}
    (h : nextSpan? cs = some (s, rest)) (hr : s.rule = .lineComment) : '\n' ∉ s.text := by
  obtain ⟨n, hn, htext, -⟩ := exists_of_nextSpan? h
  rw [hr] at hn
  unfold Rule.width? at hn
  split at hn <;> try contradiction
  next cs _ =>
  rw [htext, ← Option.some.inj hn, Nat.add_comm, List.take_succ_cons, List.take_succ_cons,
    Pattern.take_length_takeWhile]
  intro hmem
  have hbreak : '\n' ∈ cs.takeWhile (· != '\n') := by simpa using hmem
  have hother := List.mem_takeWhile_imp hbreak
  contradiction

theorem past_of_nextSpan? {cs rest : List Char} {s : Span} (before : List Char)
    (h : nextSpan? cs = some (s, rest)) :
    (Place.behind before).past s.rule.kind s.text = Place.behind (before ++ s.text) := by
  cases hr : s.rule with
  | newline =>
    rw [text_of_newline h hr]
    exact Place.behind_newline before
  | whitespace => exact Place.behind_along before (notMem_text_of_whitespace h hr)
  | lineComment => exact Place.behind_along before (notMem_text_of_lineComment h hr)
  | _ => exact Place.behind_cross before s.text

/-! ### Lexers at the place behind what they have read -/

/-- A lexer has read the first part of a text and is at the place behind it. -/
structure Reads (source before : List Char) (s : Lexer) : Prop where
  split : before ++ s.rest = source
  place : s.place = .behind before

variable {source before : List Char} {s s' : Lexer}

theorem reads_ofList (reportLimit : ℕ) (preferences : Preferences) (source : List Char) :
    Reads source [] (ofList reportLimit preferences source) := ⟨rfl, rfl⟩

theorem Reads.skip (h : Reads source before s) {span : Span} {rest : List Char}
    (hs : nextSpan? s.rest = some (span, rest)) :
    Reads source (before ++ span.text) (s.skip span rest) := by
  refine ⟨?_, ?_⟩
  · show before ++ span.text ++ rest = source
    rw [List.append_assoc, nextSpan?_append hs, h.split]
  · show s.place.past span.rule.kind span.text = _
    rw [h.place, past_of_nextSpan? before hs]

theorem Reads.emit (h : Reads source before s) {span : Span} {rest : List Char}
    (hs : nextSpan? s.rest = some (span, rest)) (c : Category) :
    Reads source (before ++ span.text) (s.emit span c rest).source :=
  ⟨(h.skip hs).split, (h.skip hs).place⟩

theorem Skips.reads (h : Skips s s') (hs : Reads source before s) :
    ∃ before', Reads source before' s' := by
  induction h generalizing before with
  | refl s => exact ⟨before, hs⟩
  | skip hspan _ _ ih => exact ih (hs.skip hspan)

theorem Reads.next (h : Reads source before s) : ∃ before', Reads source before' s.next.source := by
  by_cases hf : s.finished
  · rw [next_of_finished hf]
    exact ⟨before, h⟩
  obtain ⟨s', hskips, hcases⟩ := next_cases s (by simpa using hf)
  obtain ⟨before', h'⟩ := hskips.reads h
  rcases hcases with ⟨-, hnext⟩ | ⟨span, rest, c, hs, -, hnext⟩
  · rw [hnext]
    exact ⟨before', h'.split, h'.place⟩
  · rw [hnext]
    exact ⟨before' ++ span.text, h'.emit hs c⟩

/-- A lexer is always at the place behind what it has read. -/
theorem Reads.after (h : Reads source before s) (n : ℕ) :
    ∃ before', Reads source before' (s.after n) := by
  induction n with
  | zero => exact ⟨before, h⟩
  | succ n ih =>
    obtain ⟨before', h'⟩ := ih
    rw [after_succ]
    exact h'.next

/-! ### Positions -/

theorem Span.category?_ne_eof {cs rest : List Char} {s : Span}
    (h : nextSpan? cs = some (s, rest)) : s.category? ≠ some .eof := by
  obtain ⟨earlier, later, htable, -⟩ := (nextSpan?_eq_some_iff.mp h).first
  have hmem : s.rule ∈ Rule.table := by simp [htable]
  have hkind : ∀ r ∈ Rule.table, r.kind ≠ .token .eof := by decide
  have hword (x : String) : (Category.ofReservedWord? x).getD .identifier ≠ .eof := by
    unfold Category.ofReservedWord?
    split <;> decide
  unfold Span.category?
  split
  · next c hc =>
    rintro ⟨rfl⟩
    exact hkind s.rule hmem hc
  · intro heq
    exact hword _ (Option.some.inj heq)
  all_goals decide

/-- A token is seen where the lexer is after it has passed what becomes no token. -/
theorem next_token (h : Reads source before s) {t : Token} (ht : s.next.token = some t) :
    ∃ s' before', Skips s s' ∧ Reads source before' s' ∧ t.position = s'.place.position ∧
      s'.rest = t.text.toList ++ s.next.source.rest ∧ (t.isEof → s'.rest = []) := by
  by_cases hf : s.finished
  · rw [next_of_finished hf] at ht
    cases ht
  obtain ⟨s', hskips, hcases⟩ := next_cases s (by simpa using hf)
  obtain ⟨before', h'⟩ := hskips.reads h
  refine ⟨s', before', hskips, h', ?_⟩
  rcases hcases with ⟨hnil, hnext⟩ | ⟨span, rest, c, hs, hc, hnext⟩
  · rw [hnext] at ht ⊢
    cases ht
    exact ⟨rfl, rfl, fun _ => hnil⟩
  · rw [hnext] at ht ⊢
    cases ht
    refine ⟨rfl, ?_, fun heof => ?_⟩
    · show s'.rest = (String.ofList span.text).toList ++ rest
      rw [String.toList_ofList, nextSpan?_append hs]
    · have hceof : c = .eof := Token.isEof_iff.mp heof
      rw [hceof] at hc
      exact absurd hc (Span.category?_ne_eof hs)

/-- The lexer takes the position of a token at the place behind everything before the text of the
token, which is the whole source for the end of the input.  There the line does not start behind the
next character, and the position is that line and the distance from its start. -/
theorem position_after {reportLimit : ℕ} {preferences : Preferences} {source : String} {n : ℕ}
    {t : Token} (ht : ((ofString reportLimit preferences source).after n).next.token = some t) :
    ∃ s before, Skips ((ofString reportLimit preferences source).after n) s ∧
      before ++ s.rest = source.toList ∧
      s.rest = t.text.toList ++ ((ofString reportLimit preferences source).after (n + 1)).rest ∧
      (t.isEof → before = source.toList) ∧
      s.place.index = before.length ∧ s.place.origin = lineStart before ∧
      s.place.origin ≤ s.place.index ∧
      t.position = ⟨1 + before.count '\n', before.length - lineStart before + 1⟩ := by
  obtain ⟨_, hreads⟩ := (reads_ofList reportLimit preferences source.toList).after n
  obtain ⟨s, before, hskips, hs, hpos, hrest, heof⟩ := next_token hreads ht
  have hindex : s.place.index = before.length := by rw [hs.place]; rfl
  have horigin : s.place.origin = lineStart before := by rw [hs.place]; rfl
  refine ⟨s, before, hskips, hs.split, ?_, fun h => ?_, hindex, horigin, ?_, ?_⟩
  · rw [after_succ]
    exact hrest
  · have hsplit := hs.split
    rwa [heof h, List.append_nil] at hsplit
  · rw [hindex, horigin]
    exact lineStart_le before
  · rw [hpos, hs.place]
    rfl

theorem position_after_comment :
    ((ofString 20 ⟨true, true⟩ "x (* one\ntwo *) y").after 1).next.token =
        some ⟨some "y", .identifier, ⟨2, 8⟩⟩ ∧
      ∃ s before, Skips ((ofString 20 ⟨true, true⟩ "x (* one\ntwo *) y").after 1) s ∧
        before ++ s.rest = "x (* one\ntwo *) y".toList ∧
        s.rest = "y".toList ++ ((ofString 20 ⟨true, true⟩ "x (* one\ntwo *) y").after 2).rest ∧
        (⟨2, 8⟩ : Position) = ⟨1 + before.count '\n', before.length - lineStart before + 1⟩ := by
  have htoken : ((ofString 20 ⟨true, true⟩ "x (* one\ntwo *) y").after 1).next.token =
      some ⟨some "y", .identifier, ⟨2, 8⟩⟩ := by decide +kernel
  obtain ⟨s, before, hskips, hsplit, hrest, -, -, -, -, hpos⟩ := position_after htoken
  exact ⟨htoken, s, before, hskips, hsplit, hrest, hpos⟩

end Lexer

end Drac
