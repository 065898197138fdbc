import Drac.Proofs.LongestMatch
import Mathlib.Order.Bounds.Basic

/-!
# Where comments and quoted texts end

The end of a comment or of a quoted text is looked for at any distance from its start, and if there is
none, the character that would have started it stands for itself.  Here the ends are described by places
in the text and not by scanning it.  A block comment ends behind the first star with a bracket behind it,
the star of its start left aside, so that comments do not nest.  A string literal ends at its first quote
that is not escaped, and it is one only if no line break is escaped in it.  A character literal holds one
character or one escape.

## Main definitions

* `commentEnds` — the places at which a block comment can end.
* `escaped`, `ClosingQuote` — the places behind an escaping backslash, and the one at which a string literal
  ends.
* `CharBody` — what a character literal can hold.

## Main results

* `Rule.commentEnd?_of_isLeast`, `Rule.stringEnd?_eq_some_iff`, `Rule.charWidth?_eq_some_iff` — what the
  scanners find.
* `nextSpan?_openParen_star`, `nextSpan?_dashes`, `nextSpan?_doubleQuote`, `nextSpan?_singleQuote` — the next
  span where one of these can start.
* `delimited_of_begins` — **comments and quoted texts end where they should**, and without an end one
  character is taken.
-/

namespace Drac.Lexer

/-! ### Block comments -/

/-- The places at which a block comment at the start of a text can end: a star stands there with a closing
bracket behind it, and it is not the star with which the comment starts. -/
def commentEnds (cs : List Char) : Set ℕ := {k | 2 ≤ k ∧ ['*', ')'] <+: cs.drop k}

/-- The scanner for comments, which has come to `n`, finds the first end from there on. -/
theorem Rule.commentEnd?_of_isLeast {l cs : List Char} {n k : ℕ} (h : l.drop n = cs)
    (hk : IsLeast {k | n ≤ k ∧ ['*', ')'] <+: l.drop k} k) : commentEnd? n cs = some (k + 2) := by
  obtain ⟨⟨hle, hend⟩, hleast⟩ := hk
  fun_induction commentEnd? n cs with
  | case1 n =>
    have hlength : l.length ≤ n := List.drop_eq_nil_iff.mp h
    rw [List.drop_eq_nil_of_le (Nat.le_trans hlength hle)] at hend
    simp at hend
  | case2 n rest =>
    have hn : k ≤ n := hleast ⟨Nat.le_refl n, by rw [h]; exact ⟨rest, rfl⟩⟩
    rw [Nat.le_antisymm hle hn]
  | case3 n c cs hnot ih =>
    have hne : k ≠ n := by
      rintro rfl
      rw [h] at hend
      obtain ⟨tail, htail⟩ := hend
      obtain ⟨rfl, rfl⟩ := List.cons.inj htail
      exact hnot tail rfl rfl
    refine ih (Pattern.drop_succ_of_drop_eq_cons h) ?_ (Nat.lt_of_le_of_ne hle hne.symm)
    intro m hm
    exact hleast ⟨Nat.le_of_succ_le hm.1, hm.2⟩

theorem Rule.commentEnd?_of_commentEnds_eq_empty {u : List Char}
    (h : commentEnds ('(' :: '*' :: u) = ∅) : commentEnd? 2 u = none := by
  rw [commentEnd?_eq_none_iff]
  rintro ⟨front, back, heq⟩
  have hmem : front.length + 2 ∈ commentEnds ('(' :: '*' :: u) := by
    refine ⟨Nat.le_add_left 2 _, ?_⟩
    rw [List.drop_succ_cons, List.drop_succ_cons, ← heq, List.append_assoc, List.drop_left]
    exact List.prefix_append _ _
  rw [h] at hmem
  exact hmem

/-- At a bracket and a star a block comment starts, if it has an end, and else the bracket is a sign. -/
theorem nextSpan?_openParen_star {cs : List Char} (h : ['(', '*'] <+: cs) :
    (∀ k, IsLeast (commentEnds cs) k →
      nextSpan? cs = some (⟨.blockComment, cs.take (k + 2)⟩, cs.drop (k + 2))) ∧
    (commentEnds cs = ∅ →
      nextSpan? cs = some (⟨.symbol '(' [] .openParen, ['(']⟩, cs.drop 1)) := by
  obtain ⟨u, rfl⟩ := h
  constructor
  · intro k hk
    apply nextSpan?_of_width? (by decide) rfl
    exact Rule.commentEnd?_of_isLeast (l := '(' :: '*' :: u) rfl hk
  · intro hnone
    have hrules : Rule.candidates '(' = [.blockComment, .symbol '(' [] .openParen, .other] := by
      decide
    apply nextSpan?_of_second hrules _ rfl
    exact Rule.commentEnd?_of_commentEnds_eq_empty hnone

/-! ### Line comments -/

/-- At two dashes a line comment starts, which goes on up to the next line break. -/
theorem nextSpan?_dashes {cs : List Char} (h : ['-', '-'] <+: cs) :
    nextSpan? cs = some (⟨.lineComment, cs.takeWhile (· != '\n')⟩, cs.dropWhile (· != '\n')) := by
  obtain ⟨u, rfl⟩ := h
  show nextSpan? ('-' :: '-' :: u) = some (⟨.lineComment, ('-' :: '-' :: u).takeWhile (· != '\n')⟩,
    ('-' :: '-' :: u).dropWhile (· != '\n'))
  have hwidth : Rule.lineComment.width? ('-' :: '-' :: u) =
      some (2 + (u.takeWhile (· != '\n')).length) := rfl
  have htake : ('-' :: '-' :: u).take (2 + (u.takeWhile (· != '\n')).length) =
      ('-' :: '-' :: u).takeWhile (· != '\n') := by
    rw [Nat.add_comm, List.take_succ_cons, List.take_succ_cons, Pattern.take_length_takeWhile]
    simp
  have hdrop : ('-' :: '-' :: u).drop (2 + (u.takeWhile (· != '\n')).length) =
      ('-' :: '-' :: u).dropWhile (· != '\n') := by
    rw [Nat.add_comm, List.drop_succ_cons, List.drop_succ_cons, Pattern.drop_length_takeWhile]
    simp
  rw [← htake, ← hdrop]
  exact nextSpan?_of_width? (by decide) rfl hwidth

/-! ### String literals -/

/-- Whether a place stands behind a backslash that escapes what stands there.  A backslash does that unless
it is escaped itself. -/
def escaped (cs : List Char) : ℕ → Bool
  | 0 => false
  | i + 1 => cs[i]? == some '\\' && !escaped cs i

/-- From the place `n` on the first quote that is not escaped stands at `k`, and no line break is escaped
before it. -/
structure ClosingQuote (cs : List Char) (n k : ℕ) : Prop where
  first : IsLeast {k | n ≤ k ∧ cs[k]? = some '"' ∧ escaped cs k = false} k
  sameLine : ∀ i < k, n ≤ i → escaped cs i = true → cs[i]? ≠ some '\n'

namespace ClosingQuote

variable {cs : List Char} {n k : ℕ}

/-- A quote that is not escaped is the end. -/
theorem of_quote (hquote : cs[n]? = some '"') (hn : escaped cs n = false) : ClosingQuote cs n n where
  first := ⟨⟨Nat.le_refl n, hquote, hn⟩, fun _ hm => hm.1⟩
  sameLine i hi hle := by omega

theorem eq_of_quote (h : ClosingQuote cs n k) (hquote : cs[n]? = some '"') (hn : escaped cs n = false) :
    k = n := by
  have hle : k ≤ n := h.first.2 ⟨Nat.le_refl n, hquote, hn⟩
  exact Nat.le_antisymm hle h.first.1.1

/-- What is neither the end nor an escaped line break is passed. -/
theorem succ_iff (hquote : cs[n]? = some '"' → escaped cs n = true)
    (hbreak : escaped cs n = true → cs[n]? ≠ some '\n') :
    ClosingQuote cs n k ↔ ClosingQuote cs (n + 1) k := by
  have hset : {k | n ≤ k ∧ cs[k]? = some '"' ∧ escaped cs k = false} =
      {k | n + 1 ≤ k ∧ cs[k]? = some '"' ∧ escaped cs k = false} := by
    ext m
    constructor
    · rintro ⟨hle, hm, hesc⟩
      have hne : m ≠ n := by
        rintro rfl
        rw [hquote hm] at hesc
        cases hesc
      exact ⟨by omega, hm, hesc⟩
    · rintro ⟨hle, hm⟩
      exact ⟨Nat.le_of_succ_le hle, hm⟩
  constructor
  · intro h
    exact ⟨hset ▸ h.first, fun i hi hle => h.sameLine i hi (Nat.le_of_succ_le hle)⟩
  · intro h
    refine ⟨hset ▸ h.first, fun i hi hle hesc => ?_⟩
    rcases Nat.eq_or_lt_of_le hle with rfl | hlt
    · exact hbreak hesc
    · exact h.sameLine i hi hlt hesc

/-- A character that is not escaped and no quote is passed, be it a backslash or not. -/
theorem succ_iff_of_ne {c : Char} (hn : escaped cs n = false) (hc : cs[n]? = some c) (hquote : c ≠ '"') :
    ClosingQuote cs n k ↔ ClosingQuote cs (n + 1) k := by
  apply succ_iff
  · intro h
    rw [hc] at h
    exact absurd (Option.some.inj h) hquote
  · intro h
    rw [hn] at h
    cases h

/-- An escaped character that is no line break is passed, be it a quote or not. -/
theorem succ_iff_of_escaped {c : Char} (hn : escaped cs n = true) (hc : cs[n]? = some c)
    (hbreak : c ≠ '\n') : ClosingQuote cs n k ↔ ClosingQuote cs (n + 1) k := by
  apply succ_iff
  · intro _
    exact hn
  · intro _
    simpa [hc] using hbreak

/-- Behind an escaped line break there is no end. -/
theorem not_of_lineBreak (hn : escaped cs n = true) (hbreak : cs[n]? = some '\n') :
    ¬ ClosingQuote cs n k := by
  intro h
  obtain ⟨⟨hle, hquote, -⟩, -⟩ := h.first
  have hne : n ≠ k := by
    rintro rfl
    rw [hbreak] at hquote
    cases hquote
  exact h.sameLine n (by omega) (Nat.le_refl n) hn hbreak

/-- Behind the text there is no end. -/
theorem not_of_drop_eq_nil (hn : cs.drop n = []) : ¬ ClosingQuote cs n k := by
  intro h
  obtain ⟨⟨hle, hquote, -⟩, -⟩ := h.first
  have hlt : k < cs.length := (List.getElem?_eq_some_iff.mp hquote).1
  have hlength : cs.length ≤ n := List.drop_eq_nil_iff.mp hn
  omega

end ClosingQuote

theorem escaped_succ {cs : List Char} {n : ℕ} {c : Char} (h : cs[n]? = some c) :
    escaped cs (n + 1) = (c == '\\' && !escaped cs n) := by
  simp [escaped, h]

theorem getElem?_of_drop_eq_cons {l cs : List Char} {n : ℕ} {c : Char} (h : l.drop n = c :: cs) :
    l[n]? = some c := by
  rw [← List.head?_drop, h]
  rfl

open Pattern (drop_succ_of_drop_eq_cons)

/-- The scanner for string literals, which has come to a place that is not escaped, finds the end. -/
theorem Rule.stringEnd?_eq_some_iff {l cs : List Char} {n m : ℕ} (h : l.drop n = cs)
    (hn : escaped l n = false) : stringEnd? n cs = some m ↔ ∃ k, ClosingQuote l n k ∧ m = k + 1 := by
  fun_induction stringEnd? n cs with
  | case1 n => simp [ClosingQuote.not_of_drop_eq_nil h]
  | case2 n rest =>
    have hquote := getElem?_of_drop_eq_cons h
    constructor
    · intro hm
      exact ⟨n, .of_quote hquote hn, (Option.some.inj hm).symm⟩
    · rintro ⟨k, hk, rfl⟩
      rw [hk.eq_of_quote hquote hn]
  | case3 n =>
    have hslash := getElem?_of_drop_eq_cons h
    have hend := drop_succ_of_drop_eq_cons h
    simp [ClosingQuote.succ_iff_of_ne hn hslash (by decide), ClosingQuote.not_of_drop_eq_nil hend]
  | case4 n rest =>
    have hslash := getElem?_of_drop_eq_cons h
    have hbreak := getElem?_of_drop_eq_cons (drop_succ_of_drop_eq_cons h)
    have hesc : escaped l (n + 1) = true := by simp [escaped_succ hslash, hn]
    simp [ClosingQuote.succ_iff_of_ne hn hslash (by decide), ClosingQuote.not_of_lineBreak hesc hbreak]
  | case5 n c rest hc ih =>
    have hslash := getElem?_of_drop_eq_cons h
    have hrest := drop_succ_of_drop_eq_cons h
    have hchar := getElem?_of_drop_eq_cons hrest
    -- the backslash escapes the character, and so the character escapes nothing
    have hesc : escaped l (n + 1) = true := by simp [escaped_succ hslash, hn]
    have hnext : escaped l (n + 2) = false := by simp [escaped_succ hchar, hesc]
    refine (ih (drop_succ_of_drop_eq_cons hrest) hnext).trans ?_
    simp [ClosingQuote.succ_iff_of_ne hn hslash (by decide), ClosingQuote.succ_iff_of_escaped hesc hchar hc]
  | case6 n c rest hq hb hb' ih =>
    have hchar := getElem?_of_drop_eq_cons h
    have hquote : c ≠ '"' := fun hc => hq hc
    have hnext : escaped l (n + 1) = false := by
      simp [escaped_succ hchar, ne_backslash hb hb']
    refine (ih (drop_succ_of_drop_eq_cons h) hnext).trans ?_
    simp [ClosingQuote.succ_iff_of_ne hn hchar hquote]

/-- At a double quote a string literal starts, if it has an end, and else the quote is an illegal
character. -/
theorem nextSpan?_doubleQuote {cs : List Char} (h : cs.head? = some '"') :
    (∀ k, ClosingQuote cs 1 k →
      nextSpan? cs = some (⟨.stringLiteral, cs.take (k + 1)⟩, cs.drop (k + 1))) ∧
    ((∀ k, ¬ ClosingQuote cs 1 k) → nextSpan? cs = some (⟨.other, ['"']⟩, cs.drop 1)) := by
  obtain ⟨u, rfl⟩ := List.head?_eq_some_iff.mp h
  have hend (m : ℕ) : Rule.stringEnd? 1 u = some m ↔ ∃ k, ClosingQuote ('"' :: u) 1 k ∧ m = k + 1 :=
    Rule.stringEnd?_eq_some_iff (l := '"' :: u) rfl (by simp [escaped])
  constructor
  · intro k hk
    apply nextSpan?_of_width? (by decide) rfl
    exact (hend (k + 1)).mpr ⟨k, hk, rfl⟩
  · intro hnone
    have hrules : Rule.candidates '"' = [.stringLiteral, .other] := by decide
    apply nextSpan?_of_second hrules _ rfl
    apply Option.eq_none_iff_forall_ne_some.mpr
    intro m hm
    obtain ⟨k, hk, -⟩ := (hend m).mp hm
    exact hnone k hk

/-- In a string literal a quote can be escaped, and so can a backslash in front of the quote that ends it. -/
example : nextSpan? "\"\\\"\\\\\" \"".toList =
    some (⟨.stringLiteral, "\"\\\"\\\\\"".toList⟩, " \"".toList) := by
  decide

/-! ### Character literals -/

/-- What a character literal can hold between its quotes: a character, which is no backslash, or an escape
of one sign or of six hexadecimal digits. -/
inductive CharBody : List Char → Prop
  | char {c : Char} (hc : c ≠ '\\') : CharBody [c]
  | escape {c : Char} (hc : c ∈ ['n', 'r', 't', '\'', '"', '\\']) : CharBody ['\\', c]
  | unicode {ds : List Char} (hlength : ds.length = 6) (hds : ∀ d ∈ ds, Rule.isHexDigit d = true) :
      CharBody ('\\' :: 'u' :: ds)

theorem isShortEscape_iff {c : Char} :
    Rule.isShortEscape c = true ↔ c ∈ ['n', 'r', 't', '\'', '"', '\\'] := by
  simp [Rule.isShortEscape, or_assoc]

/-- Behind a backslash an escape stands, and a quote behind it. -/
theorem Rule.charWidth?_escape_eq_some_iff {c : Char} {cs : List Char} {n : ℕ} :
    charWidth? ('\'' :: '\\' :: c :: cs) = some n ↔
      ∃ v, CharBody v ∧ v ++ ['\''] <+: '\\' :: c :: cs ∧ n = v.length + 2 := by
  rw [charWidth?_escape]
  constructor
  · intro h
    split at h
    · next hshort =>
      split at h
      · next hquote =>
        obtain ⟨rest, rfl⟩ := List.head?_eq_some_iff.mp hquote
        obtain rfl := Option.some.inj h
        exact ⟨['\\', c], .escape (isShortEscape_iff.mp hshort), ⟨rest, rfl⟩, rfl⟩
      · cases h
    · split at h
      · next hunicode =>
        obtain ⟨rfl, hhex, hquote⟩ := hunicode
        obtain rfl := Option.some.inj h
        obtain ⟨rest, hrest⟩ := List.head?_eq_some_iff.mp hquote
        have hlength : (cs.take 6).length = 6 := by
          have hlengths := congrArg List.length hrest
          rw [List.length_drop, List.length_cons] at hlengths
          rw [List.length_take]
          omega
        refine ⟨'\\' :: 'u' :: cs.take 6, .unicode hlength (List.all_eq_true.mp hhex), ⟨rest, ?_⟩, ?_⟩
        · simp [← hrest]
        · rw [List.length_cons, List.length_cons, hlength]
      · cases h
  · rintro ⟨v, hv, hpre, rfl⟩
    cases hv with
    | char hc => exact absurd (List.cons_prefix_cons.mp hpre).1 hc
    | escape hc =>
      obtain ⟨rest, hrest⟩ := hpre
      obtain ⟨rfl, rfl⟩ := List.cons.inj (List.cons.inj hrest).2
      rw [if_pos (isShortEscape_iff.mpr hc)]
      rfl
    | @unicode ds hlength hds =>
      obtain ⟨rest, hrest⟩ := hpre
      simp only [List.cons_append, List.cons.injEq, true_and] at hrest
      obtain ⟨rfl, hcs⟩ := hrest
      have htake : (cs.take 6).all isHexDigit = true := by
        rw [← hcs, ← hlength, List.append_assoc, List.take_left]
        exact List.all_eq_true.mpr hds
      have hdrop : (cs.drop 6).head? = some '\'' := by
        rw [← hcs, ← hlength, List.append_assoc, List.drop_left]
        rfl
      rw [if_neg (by decide), if_pos ⟨rfl, htake, hdrop⟩, List.length_cons, List.length_cons, hlength]

/-- The scanner for character literals looks for something they can hold and a quote behind it. -/
theorem Rule.charWidth?_eq_some_iff {cs : List Char} {n : ℕ} : charWidth? ('\'' :: cs) = some n ↔
    ∃ v, CharBody v ∧ v ++ ['\''] <+: cs ∧ n = v.length + 2 := by
  cases cs with
  | nil => simp [charWidth?]
  | cons c cs =>
    by_cases hb : c = '\\'
    · rw [hb]
      cases cs with
      | nil =>
        constructor
        · intro h
          cases h
        · rintro ⟨v, hv, hpre, -⟩
          cases hv with
          | char hc => exact absurd (List.cons_prefix_cons.mp hpre).1 hc
          | escape | unicode => simp at hpre
      | cons c cs => exact charWidth?_escape_eq_some_iff
    · rw [charWidth?_other cs hb]
      constructor
      · intro h
        split at h
        · next hquote =>
          obtain ⟨rest, rfl⟩ := List.head?_eq_some_iff.mp hquote
          obtain rfl := Option.some.inj h
          exact ⟨[c], .char hb, ⟨rest, rfl⟩, rfl⟩
        · cases h
      · rintro ⟨v, hv, ⟨rest, hrest⟩, rfl⟩
        cases hv with
        | char =>
          obtain ⟨-, rfl⟩ := List.cons.inj hrest
          rfl
        | escape | unicode => exact absurd (List.cons.inj hrest).1.symm hb

/-- At a single quote a character literal starts, if it holds what it can and is closed, and else the quote
is an illegal character. -/
theorem nextSpan?_singleQuote {cs : List Char} (h : cs.head? = some '\'') :
    (∀ v, CharBody v → '\'' :: v ++ ['\''] <+: cs →
      nextSpan? cs = some (⟨.charLiteral, '\'' :: v ++ ['\'']⟩, cs.drop (v.length + 2))) ∧
    ((∀ v, CharBody v → ¬ '\'' :: v ++ ['\''] <+: cs) →
      nextSpan? cs = some (⟨.other, ['\'']⟩, cs.drop 1)) := by
  obtain ⟨u, rfl⟩ := List.head?_eq_some_iff.mp h
  constructor
  · intro v hv hpre
    have hlength : ('\'' :: v ++ ['\'']).length = v.length + 2 := by simp
    have htext : ('\'' :: u).take (v.length + 2) = '\'' :: v ++ ['\''] := by
      rw [← hlength]
      exact (List.prefix_iff_eq_take.mp hpre).symm
    rw [← htext]
    apply nextSpan?_of_width? (by decide) rfl
    exact Rule.charWidth?_eq_some_iff.mpr ⟨v, hv, (List.cons_prefix_cons.mp hpre).2, rfl⟩
  · intro hnone
    have hrules : Rule.candidates '\'' = [.charLiteral, .other] := by decide
    apply nextSpan?_of_second hrules _ rfl
    apply Option.eq_none_iff_forall_ne_some.mpr
    intro m hm
    obtain ⟨v, hv, hpre, -⟩ := Rule.charWidth?_eq_some_iff.mp hm
    exact hnone v hv (List.cons_prefix_cons.mpr ⟨rfl, hpre⟩)

/-! ### Comments and quoted texts -/

/-- **Comments and quoted texts end where they should.**  Where the lexer begins a match,

* at a bracket and a star it takes a block comment up to the first end, and only the bracket if there is no
  end;
* at two dashes it takes a line comment, up to the next line break or the end of the text;
* at a double quote it takes a string literal up to the first quote that is not escaped, and only an
  illegal character if there is none or a line break is escaped before it;
* at a single quote it takes a character literal if one character or escape and a quote follow, and else
  only an illegal character. -/
theorem delimited_of_begins {source : String} {offset : ℕ} {s : Span} (h : Begins source offset s) :
    let cs := source.toList.drop offset
    (['(', '*'] <+: cs →
      (∀ k, IsLeast (commentEnds cs) k →
        s.rule = .blockComment ∧ s.category? = none ∧ s.text = cs.take (k + 2)) ∧
      (commentEnds cs = ∅ → s.category? = some .openParen ∧ s.text = ['('])) ∧
    (['-', '-'] <+: cs →
      s.rule = .lineComment ∧ s.category? = none ∧ s.text = cs.takeWhile (· != '\n')) ∧
    (cs.head? = some '"' →
      (∀ k, ClosingQuote cs 1 k → s.category? = some .stringLiteral ∧ s.text = cs.take (k + 1)) ∧
      ((∀ k, ¬ ClosingQuote cs 1 k) → s.category? = some .illegalChar ∧ s.text = ['"'])) ∧
    (cs.head? = some '\'' →
      (∀ v, CharBody v → '\'' :: v ++ ['\''] <+: cs →
        s.category? = some .charLiteral ∧ s.text = '\'' :: v ++ ['\'']) ∧
      ((∀ v, CharBody v → ¬ '\'' :: v ++ ['\''] <+: cs) →
        s.category? = some .illegalChar ∧ s.text = ['\''])) := by
  intro cs
  have hspan {t : Span} {rest : List Char} (ht : nextSpan? cs = some (t, rest)) : s = t := by
    have hs : nextSpan? cs = some (s, cs.drop s.text.length) := h.nextSpan?
    rw [ht] at hs
    exact (congrArg Prod.fst (Option.some.inj hs)).symm
  refine ⟨fun hopen => ⟨fun k hk => ?_, fun hnone => ?_⟩, fun hdashes => ?_,
    fun hquote => ⟨fun k hk => ?_, fun hnone => ?_⟩,
    fun hquote => ⟨fun v hv hpre => ?_, fun hnone => ?_⟩⟩
  · rw [hspan ((nextSpan?_openParen_star hopen).1 k hk)]
    exact ⟨rfl, rfl, rfl⟩
  · rw [hspan ((nextSpan?_openParen_star hopen).2 hnone)]
    exact ⟨rfl, rfl⟩
  · rw [hspan (nextSpan?_dashes hdashes)]
    exact ⟨rfl, rfl, rfl⟩
  · rw [hspan ((nextSpan?_doubleQuote hquote).1 k hk)]
    exact ⟨rfl, rfl⟩
  · rw [hspan ((nextSpan?_doubleQuote hquote).2 hnone)]
    exact ⟨rfl, rfl⟩
  · rw [hspan ((nextSpan?_singleQuote hquote).1 v hv hpre)]
    exact ⟨rfl, rfl⟩
  · rw [hspan ((nextSpan?_singleQuote hquote).2 hnone)]
    exact ⟨rfl, rfl⟩

/-- The star of its start does not end a comment, which goes on to the next one with a bracket behind it. -/
theorem delimited_of_begins_comment :
    let s : Span := ⟨.blockComment, "(*) \"*)".toList⟩
    Begins "x(*) \"*) y\"" 1 s ∧
      IsLeast (commentEnds ("x(*) \"*) y\"".toList.drop 1)) 5 ∧
      s.text = ("x(*) \"*) y\"".toList.drop 1).take 7 := by
  intro s
  have hbegins : Begins "x(*) \"*) y\"" 1 s :=
    ⟨20, ⟨true, true⟩, 1, _, " y\"".toList, .refl _, by decide +kernel, by decide +kernel⟩
  have hleast : IsLeast (commentEnds ("x(*) \"*) y\"".toList.drop 1)) 5 := by
    refine ⟨⟨by decide, by decide⟩, fun k hk => ?_⟩
    have hnone : ∀ k < 5, ¬ (2 ≤ k ∧ ['*', ')'] <+: ("x(*) \"*) y\"".toList.drop 1).drop k) := by
      decide
    by_contra hlt
    exact hnone k (by omega) hk
  obtain ⟨hcomment, -⟩ := delimited_of_begins hbegins
  exact ⟨hbegins, hleast, ((hcomment (by decide)).1 5 hleast).2.2⟩

end Drac.Lexer
