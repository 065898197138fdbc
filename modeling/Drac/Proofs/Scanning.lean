import Drac.Proofs.Matching

/-!
# The scanners of the rules

The scanners of the rules know nothing of regular expressions.  Here each is shown to take exactly
what the match of its expression takes.

## Main definitions

* `Rule.stringPart`, `Rule.charPart` — what stands between the quotes of a literal.

## Main results

* `Rule.drop_commentEnd?`, `Rule.drop_stringEnd?`, `Rule.drop_charWidth?` — the scanners that look
  for an end.
* `Rule.drop_width?` — **a scanner takes what the preferred match of its expression takes**, and
  fails where there is none.
-/

namespace Drac.Lexer

namespace Rule

open Pattern

/-! ### Sets of characters -/

theorem holds_digits : (CharSet.oneOf [digits]).holds = isDigit := by
  funext c
  simp [CharSet.holds, SetItem.holds, digits, isDigit]

theorem holds_hexDigits :
    (CharSet.oneOf [digits, .range 'A' 'F', .range 'a' 'f']).holds = isHexDigit := by
  funext c
  simp [CharSet.holds, SetItem.holds, digits, isDigit, isHexDigit, Bool.or_assoc]

theorem holds_wordStart :
    (CharSet.oneOf [.range 'A' 'Z', .range 'a' 'z', .single '_']).holds = isWordStart := by
  funext c
  simp [CharSet.holds, SetItem.holds, isWordStart, Bool.or_assoc]

theorem holds_wordPart :
    (CharSet.oneOf [.range 'A' 'Z', .range 'a' 'z', digits, .single '_']).holds = isWordPart := by
  funext c
  simp only [CharSet.holds, SetItem.holds, digits, isWordPart, isWordStart, isDigit, List.any_cons,
    List.any_nil, Bool.or_false, Bool.or_assoc]
  rw [Bool.or_comm (decide ('0' ≤ c) && decide (c ≤ '9')) (c == '_')]

theorem holds_shortEscapes :
    (CharSet.oneOf [.single 'n', .single 'r', .single 't', .single '\'', .single '"',
      .single '\\']).holds = isShortEscape := by
  funext c
  simp [CharSet.holds, SetItem.holds, isShortEscape, Bool.or_assoc]

theorem holds_noLineBreak : (CharSet.noneOf [.single '\n']).holds = (· != '\n') := by
  funext c
  simp [CharSet.holds, SetItem.holds, bne]

/-! ### Block comments -/

/-- A block comment ends at the first place where it can. -/
theorem drop_commentEnd? {l : List Char} {n : ℕ} {cs : List Char} (h : l.drop n = cs) :
    (commentEnd? n cs).map (l.drop ·) =
      (((lazyStar (set .any)).rests cs).flatMap (char '*' ++ char ')').rests).head? := by
  fun_induction commentEnd? n cs with
  | case1 n => rw [rests_lazyStar]; rfl
  | case2 n rest =>
    rw [rests_lazyStar, List.flatMap_cons]
    simp [← List.drop_drop, h]
  | case3 n c cs hc ih =>
    have hrest := drop_succ_of_drop_eq_cons h
    -- the comment does not end here, so what is preferred is one character more
    have hclose : (char '*' ++ char ')').rests (c :: cs) = [] := by
      rw [rests_append, rests_char_cons]
      split
      · next hstar =>
        rw [List.flatMap_singleton]
        cases cs with
        | nil => rfl
        | cons d ds =>
          rw [rests_char_cons, if_neg]
          rintro rfl
          exact hc ds hstar rfl
      · rfl
    rw [ih hrest, rests_lazyStar (set .any) (c :: cs), List.flatMap_cons, hclose, List.nil_append,
      rests_set_cons, CharSet.holds, if_pos rfl, List.flatMap_singleton, if_pos (by simp)]

/-! ### String literals -/

/-- What a string literal repeats: a character, or a backslash and the character behind it. -/
def stringPart : Pattern :=
  .alt (.set (.noneOf [.single '\\', .single '"'])) (.char '\\' ++ .set .sameLine)

theorem rests_stringPart_escape (c : Char) (cs : List Char) :
    stringPart.rests ('\\' :: c :: cs) = if c = '\n' then [] else [cs] := by
  by_cases h : c = '\n' <;>
    simp [stringPart, rests_alt, CharSet.holds, SetItem.holds, h]

theorem rests_stringPart_other {c : Char} (cs : List Char) (hq : c ≠ '"') (hb : c ≠ '\\') :
    stringPart.rests (c :: cs) = [cs] := by
  simp [stringPart, rests_alt, CharSet.holds, SetItem.holds, hq, hb]

/-- What is a backslash neither at the end of a text nor in front of a character is none. -/
theorem ne_backslash {c : Char} {cs : List Char} (hlast : c = '\\' → cs = [] → False)
    (hmore : ∀ d ds, c = '\\' → cs = d :: ds → False) : c ≠ '\\' := by
  intro hc
  cases cs with
  | nil => exact hlast hc rfl
  | cons d ds => exact hmore d ds hc rfl

/-- A string literal ends at its first quote that is not behind a backslash. -/
theorem drop_stringEnd? {l : List Char} {n : ℕ} {cs : List Char} (h : l.drop n = cs) :
    (stringEnd? n cs).map (l.drop ·) =
      (((star stringPart).rests cs).flatMap (char '"').rests).head? := by
  fun_induction stringEnd? n cs with
  | case1 n => rw [rests_star]; rfl
  | case2 n rest =>
    rw [rests_star]
    simp [stringPart, CharSet.holds, SetItem.holds, ← List.drop_drop, h]
  | case3 n => rw [rests_star]; rfl
  | case4 n rest => rw [rests_star, rests_stringPart_escape]; rfl
  | case5 n c cs hc ih =>
    have hrest := drop_succ_of_drop_eq_cons (drop_succ_of_drop_eq_cons h)
    have hlt : cs.length < ('\\' :: c :: cs).length := by simp only [List.length_cons]; omega
    rw [ih hrest, rests_star stringPart ('\\' :: c :: cs), rests_stringPart_escape, if_neg hc,
      List.flatMap_singleton, if_pos hlt, List.flatMap_append, List.flatMap_singleton,
      rests_char_cons, if_neg (by decide), List.append_nil]
  | case6 n c cs hq hb hb' ih =>
    have hrest := drop_succ_of_drop_eq_cons h
    have hquote : c ≠ '"' := fun hc => hq hc
    have hslash : c ≠ '\\' := ne_backslash hb hb'
    rw [ih hrest, rests_star stringPart (c :: cs), rests_stringPart_other cs hquote hslash,
      List.flatMap_singleton, if_pos (by simp), List.flatMap_append, List.flatMap_singleton,
      rests_char_cons, if_neg hquote, List.append_nil]

/-! ### Character literals -/

/-- What stands between the quotes of a character literal: an escape, or one character. -/
def charPart : Pattern :=
  .alt
    (.char '\\' ++
      .alt
        (.set (.oneOf
          [.single 'n', .single 'r', .single 't', .single '\'', .single '"', .single '\\']))
        (.char 'u' ++ .times 6 (.set (.oneOf [digits, .range 'A' 'F', .range 'a' 'f']))))
    (.set (.noneOf [.single '\\']))

theorem rests_charPart_other {c : Char} (cs : List Char) (hb : c ≠ '\\') :
    charPart.rests (c :: cs) = [cs] := by
  simp [charPart, CharSet.holds, SetItem.holds, hb]

theorem rests_charPart_escape (c : Char) (cs : List Char) : charPart.rests ('\\' :: c :: cs) =
    if isShortEscape c then [cs]
    else if c = 'u' ∧ 6 ≤ cs.length ∧ (cs.take 6).all isHexDigit then [cs.drop 6] else [] := by
  have hother : (CharSet.noneOf [.single '\\']).holds '\\' = false := by decide
  rw [charPart, rests_alt, rests_append, rests_char_cons, if_pos rfl, List.flatMap_singleton,
    rests_set_cons, hother, rests_alt, rests_set_cons, holds_shortEscapes, rests_append,
    rests_char_cons]
  by_cases hu : c = 'u'
  · have hs : isShortEscape c = false := by rw [hu]; decide
    rw [if_pos hu, List.flatMap_singleton, rests_times_set, holds_hexDigits, hs]
    simp [hu]
  · simp [hu]

theorem eq_cons_of_head?_drop_six {q : Char} {cs : List Char} (h : (cs.drop 6).head? = some q) :
    ∃ a b c d e f rest, cs = a :: b :: c :: d :: e :: f :: q :: rest := by
  match cs, h with
  | a :: b :: c :: d :: e :: f :: g :: rest, h =>
    obtain rfl : g = q := Option.some.inj h
    exact ⟨a, b, c, d, e, f, rest, rfl⟩

theorem charWidth?_escape (c : Char) (cs : List Char) :
    charWidth? ('\'' :: '\\' :: c :: cs) =
      if isShortEscape c then if cs.head? = some '\'' then some 4 else none
      else if c = 'u' ∧ (cs.take 6).all isHexDigit ∧ (cs.drop 6).head? = some '\'' then some 10
      else none := by
  -- The forms overlap: a quote can stand where the first of the six digits is looked for.
  have hquote : isHexDigit '\'' = false := by decide
  have hu : isShortEscape 'u' = false := by decide
  unfold charWidth?
  split
  · next h =>
    cases h
    simp [hu]
  · next h =>
    cases h
    simp [hquote]
  · next hnot h =>
    cases h
    have hopen : cs.head? ≠ some '\'' := by
      intro h
      obtain ⟨tail, rfl⟩ := List.head?_eq_some_iff.mp h
      exact hnot tail rfl rfl
    simp [hopen]
  · next hu6 h1 h2 =>
    have hopen : cs.head? ≠ some '\'' := by
      intro h
      obtain ⟨tail, rfl⟩ := List.head?_eq_some_iff.mp h
      exact h1 _ _ rfl
    have hfar : ¬(c = 'u' ∧ (cs.take 6).all isHexDigit ∧ (cs.drop 6).head? = some '\'') := by
      rintro ⟨rfl, -, hq⟩
      obtain ⟨x, y, z, u, v, w, rest, rfl⟩ := eq_cons_of_head?_drop_six hq
      exact hu6 _ _ _ _ _ _ _ rfl
    rw [if_neg hopen, if_neg hfar, ite_self]

theorem charWidth?_other {c : Char} (cs : List Char) (hb : c ≠ '\\') :
    charWidth? ('\'' :: c :: cs) = if cs.head? = some '\'' then some 3 else none := by
  unfold charWidth?
  split
  · next h =>
    cases h
    exact absurd rfl hb
  · next h =>
    cases h
    exact absurd rfl hb
  · next h =>
    cases h
    rw [if_neg hb]
    rfl
  · next h =>
    rw [if_neg]
    intro hq
    obtain ⟨tail, rfl⟩ := List.head?_eq_some_iff.mp hq
    exact h _ _ rfl

theorem charWidth?_of_ne {q : Char} (cs : List Char) (hq : q ≠ '\'') :
    charWidth? (q :: cs) = none := by
  simp [charWidth?, hq]

theorem drop_charWidth?_escape (c : Char) (cs : List Char) :
    (charWidth? ('\'' :: '\\' :: c :: cs)).map (('\'' :: '\\' :: c :: cs).drop ·) =
      ((charPart.rests ('\\' :: c :: cs)).flatMap (char '\'').rests).head? := by
  rw [charWidth?_escape, rests_charPart_escape]
  by_cases hs : isShortEscape c
  · rw [if_pos hs, if_pos hs, List.flatMap_singleton, rests_char]
    split <;> rfl
  rw [if_neg hs, if_neg hs]
  by_cases hq : (cs.drop 6).head? = some '\''
  · have hlen : 6 ≤ cs.length := by
      obtain ⟨x, y, z, u, v, w, rest, rfl⟩ := eq_cons_of_head?_drop_six hq
      simp
    by_cases hx : c = 'u' ∧ (cs.take 6).all isHexDigit
    · rw [if_pos ⟨hx.1, hx.2, hq⟩, if_pos ⟨hx.1, hlen, hx.2⟩, List.flatMap_singleton, rests_char,
        if_pos hq, List.drop_drop]
      rfl
    · rw [if_neg fun h => hx ⟨h.1, h.2.1⟩, if_neg fun h => hx ⟨h.1, h.2.2⟩]
      rfl
  · rw [if_neg fun h => hq h.2.2]
    split
    · rw [List.flatMap_singleton, rests_char, if_neg hq]
      rfl
    · rfl

/-- A character literal closes right behind the escape or the character. -/
theorem drop_charWidth? (cs : List Char) :
    (charWidth? cs).map (cs.drop ·) = charLiteral.pattern.preferred? cs := by
  rw [show charLiteral.pattern = char '\'' ++ (charPart ++ char '\'') from rfl]
  cases cs with
  | nil => rfl
  | cons q cs =>
    rw [preferred?_char_append]
    by_cases hq : q = '\''
    · rw [if_pos hq, hq, preferred?, rests_append]
      cases cs with
      | nil => rfl
      | cons c cs =>
        by_cases hb : c = '\\'
        · rw [hb]
          cases cs with
          | nil => rfl
          | cons c cs => exact drop_charWidth?_escape c cs
        · rw [charWidth?_other cs hb, rests_charPart_other cs hb, List.flatMap_singleton,
            rests_char]
          split <;> rfl
    · rw [charWidth?_of_ne cs hq, if_neg hq]
      rfl

/-! ### All rules -/

theorem drop_width?_blockComment (c : Char) (cs : List Char) :
    (blockComment.width? (c :: cs)).map ((c :: cs).drop ·) =
      blockComment.pattern.preferred? (c :: cs) := by
  rw [show blockComment.pattern = char '(' ++ (char '*' ++ (lazyStar (set .any) ++
    (char '*' ++ char ')'))) from rfl, preferred?_char_append]
  by_cases hc : c = '('
  · rw [if_pos hc, hc]
    cases cs with
    | nil => rfl
    | cons d cs =>
      rw [preferred?_char_append]
      by_cases hd : d = '*'
      · rw [if_pos hd, hd]
        exact drop_commentEnd? rfl
      · simp [width?, hd]
  · simp [width?, hc]

theorem drop_width?_lineComment (c : Char) (cs : List Char) :
    (lineComment.width? (c :: cs)).map ((c :: cs).drop ·) =
      lineComment.pattern.preferred? (c :: cs) := by
  rw [show lineComment.pattern = char '-' ++ (char '-' ++ star (set (.noneOf [.single '\n'])))
    from rfl, preferred?_char_append]
  by_cases hc : c = '-'
  · rw [if_pos hc, hc]
    cases cs with
    | nil => rfl
    | cons d cs =>
      rw [preferred?_char_append]
      by_cases hd : d = '-'
      · rw [if_pos hd, hd, preferred?, head?_rests_star_set, holds_noLineBreak,
          ← drop_length_takeWhile, width?, Option.map_some, ← List.drop_drop]
        rfl
      · simp [width?, hd]
  · simp [width?, hc]

theorem drop_width?_symbol (first : Char) (more : List Char) (category : Category) (c : Char)
    (cs : List Char) : ((symbol first more category).width? (c :: cs)).map ((c :: cs).drop ·) =
      (symbol first more category).pattern.preferred? (c :: cs) := by
  rw [preferred?, pattern, rests_literal, width?, List.isPrefixOf]
  by_cases hc : c = first
  · rw [hc]
    simp only [decide_true, beq_self_eq_true, Bool.true_and]
    split <;> rfl
  · simp [hc, Ne.symm hc]

theorem drop_width?_stringLiteral (c : Char) (cs : List Char) :
    (stringLiteral.width? (c :: cs)).map ((c :: cs).drop ·) =
      stringLiteral.pattern.preferred? (c :: cs) := by
  rw [show stringLiteral.pattern = char '"' ++ (star stringPart ++ char '"') from rfl,
    preferred?_char_append]
  by_cases hc : c = '"'
  · rw [if_pos hc, hc]
    exact drop_stringEnd? rfl
  · simp [width?, hc]

/-- **A scanner takes what the preferred match of its expression takes**, and fails where there is
none. -/
theorem drop_width? (r : Rule) (cs : List Char) :
    (r.width? cs).map (cs.drop ·) = r.pattern.preferred? cs := by
  cases cs with
  | nil =>
    rw [width?_nil]
    cases r with
    | symbol first more category => cases more <;> rfl
    | _ => rfl
  | cons c cs =>
    cases r with
    | blockComment => exact drop_width?_blockComment c cs
    | lineComment => exact drop_width?_lineComment c cs
    | symbol first more category => exact drop_width?_symbol first more category c cs
    | charLiteral => exact drop_charWidth? (c :: cs)
    | stringLiteral => exact drop_width?_stringLiteral c cs
    | newline =>
      rw [preferred?, pattern, rests_char_cons]
      by_cases hc : c = '\n'
      · rw [if_pos hc, hc]
        rfl
      · simp [width?, hc]
    | whitespace =>
      rw [preferred?, pattern, rests_set_cons, width?, CharSet.holds]
      split <;> rfl
    | intLiteral =>
      rw [pattern, preferred?_plus_set, holds_digits, width?]
      split
      · rw [Option.map_some, Nat.add_comm, List.drop_succ_cons]
      · rfl
    | word =>
      rw [pattern, preferred?_run, holds_wordStart, holds_wordPart, width?]
      split
      · rw [Option.map_some, Nat.add_comm, List.drop_succ_cons]
      · rfl
    | other =>
      rw [preferred?, pattern, rests_set_cons, width?, CharSet.holds]
      by_cases hc : c = '\n' <;> simp [hc]

end Rule

end Drac.Lexer
