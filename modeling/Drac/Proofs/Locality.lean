import Drac.Proofs.Tiling
import Mathlib.Data.List.Infix
import Mathlib.Data.List.TakeWhile

/-!
# What a span depends on

A rule knows where its text ends from the text and from one character behind it.  So a span stays the
next one when what follows it is exchanged, as long as the first character of that is kept or becomes
white space.  Comments and quoted texts are the exception, since their ends are looked for at any distance:
a bracket must not become the start of a comment, and a stray quote not that of a literal.

## Main definitions

* `Rule.endsBefore` — whether a text that a rule has taken can end in front of a character.
* `Rule.startsAt`, `Rule.sign` — the first character, or all characters, by which a rule is told to apply.
* `Seam s rest rest'` — behind the span `s` the text `rest` may be exchanged for `rest'`.

## Main results

* `Rule.exists_of_width?` — **a rule takes the same wherever it can end.**
* `Seam.width?_eq_none` — a rule that failed fails behind a seam as well.
* `nextSpan?_of_seam` — **the next span stays the next one.**
* `exists_nextSpan?_blank` — white space is a span of its own.
-/

namespace Drac.Lexer

namespace Rule

/-! ### Where a text ends -/

/-- Whether a text that a rule has taken can end in front of a character. -/
def endsBefore : Rule → Char → Bool
  | lineComment, c => c == '\n'
  | intLiteral, c => !isDigit c
  | word, c => !isWordPart c
  | _, _ => true

theorem commentEnd?_cons (n : ℕ) (c : Char) (cs : List Char) : commentEnd? n (c :: cs) =
    if c = '*' ∧ cs.head? = some ')' then some (n + 2) else commentEnd? (n + 1) cs := by
  rw [commentEnd?.eq_def]
  split
  · next h => cases h
  · next h =>
    cases h
    rfl
  · next hnot h =>
    cases h
    rw [if_neg]
    rintro ⟨rfl, hhead⟩
    obtain ⟨tail, rfl⟩ := List.head?_eq_some_iff.mp hhead
    exact hnot tail rfl rfl

/-- A comment ends where it does whatever follows. -/
theorem exists_of_commentEnd? {n m : ℕ} {cs : List Char} (h : commentEnd? n cs = some m) :
    ∃ u rest, u ++ rest = cs ∧ n + u.length = m ∧
      ∀ rest', commentEnd? n (u ++ rest') = some m := by
  fun_induction commentEnd? n cs with
  | case1 => cases h
  | case2 n cs =>
    obtain rfl := Option.some.inj h
    exact ⟨['*', ')'], cs, rfl, rfl, fun _ => rfl⟩
  | case3 n c cs hnot ih =>
    obtain ⟨u, rest, rfl, hlen, hu⟩ := ih h
    refine ⟨c :: u, rest, rfl, by rw [← hlen, List.length_cons]; omega, fun rest' => ?_⟩
    rw [List.cons_append, commentEnd?_cons, if_neg]
    · exact hu rest'
    · -- the text goes on behind this character, so the bracket would belong to it
      rintro ⟨hstar, hclose⟩
      cases u with
      | nil => exact absurd (commentEnd?_gt h) (by simp [← hlen])
      | cons d u =>
        obtain rfl : d = ')' := Option.some.inj hclose
        exact hnot (u ++ rest) hstar rfl

/-- A comment ends wherever a star has a closing bracket behind it. -/
theorem commentEnd?_eq_none_iff {n : ℕ} {cs : List Char} :
    commentEnd? n cs = none ↔ ¬ ['*', ')'] <:+: cs := by
  fun_induction commentEnd? n cs with
  | case1 => simp
  | case2 n cs => simpa using ⟨[], cs, rfl⟩
  | case3 n c cs hnot ih =>
    rw [ih, List.infix_cons_iff, not_or]
    refine (and_iff_right ?_).symm
    rintro ⟨tail, htail⟩
    obtain ⟨rfl, rfl⟩ := List.cons.inj htail
    exact hnot tail rfl rfl

theorem width?_blockComment_eq_none_iff {cs : List Char} : blockComment.width? cs = none ↔
    ¬ ∃ u, cs = '(' :: '*' :: u ∧ ['*', ')'] <:+: u := by
  constructor
  · rintro hnone ⟨u, rfl, hpair⟩
    exact commentEnd?_eq_none_iff.mp hnone hpair
  · intro h
    by_contra hsome
    obtain ⟨n, hn⟩ := Option.ne_none_iff_exists'.mp hsome
    unfold width? at hn
    split at hn <;> try contradiction
    next u _ =>
    refine h ⟨u, rfl, ?_⟩
    by_contra hpair
    rw [commentEnd?_eq_none_iff.mpr hpair] at hn
    cases hn

theorem stringEnd?_escape (n : ℕ) (c : Char) (cs : List Char) : stringEnd? n ('\\' :: c :: cs) =
    if c = '\n' then none else stringEnd? (n + 2) cs := by
  rw [stringEnd?.eq_def]
  rfl

theorem stringEnd?_other (n : ℕ) {c : Char} (cs : List Char) (hq : c ≠ '"') (hb : c ≠ '\\') :
    stringEnd? n (c :: cs) = stringEnd? (n + 1) cs := by
  rw [stringEnd?.eq_def]
  split <;> simp_all

/-- A quoted text ends where it does whatever follows. -/
theorem exists_of_stringEnd? {n m : ℕ} {cs : List Char} (h : stringEnd? n cs = some m) :
    ∃ u rest, u ++ rest = cs ∧ n + u.length = m ∧
      ∀ rest', stringEnd? n (u ++ rest') = some m := by
  fun_induction stringEnd? n cs with
  | case1 | case3 | case4 => cases h
  | case2 n cs =>
    obtain rfl := Option.some.inj h
    exact ⟨['"'], cs, rfl, rfl, fun _ => rfl⟩
  | case5 n c cs hc ih =>
    obtain ⟨u, rest, rfl, hlen, hu⟩ := ih h
    refine ⟨'\\' :: c :: u, rest, rfl, by simp only [← hlen, List.length_cons]; omega,
      fun rest' => ?_⟩
    rw [List.cons_append, List.cons_append, stringEnd?_escape, if_neg hc]
    exact hu rest'
  | case6 n c cs hq hb hb' ih =>
    have hslash : c ≠ '\\' := ne_backslash hb hb'
    obtain ⟨u, rest, rfl, hlen, hu⟩ := ih h
    refine ⟨c :: u, rest, rfl, by rw [← hlen, List.length_cons]; omega, fun rest' => ?_⟩
    rw [List.cons_append, stringEnd?_other _ _ hq hslash]
    exact hu rest'

/-- A character literal is what it is whatever follows. -/
theorem exists_of_charWidth? {n : ℕ} {cs : List Char} (h : charWidth? cs = some n) :
    ∃ u rest, u ++ rest = cs ∧ u.length = n ∧ ∀ rest', charWidth? (u ++ rest') = some n := by
  unfold charWidth? at h
  split at h
  · next a b c d e f rest =>
    split at h
    · next hhex =>
      obtain rfl := Option.some.inj h
      exact ⟨['\'', '\\', 'u', a, b, c, d, e, f, '\''], rest, rfl, rfl,
        fun rest' => if_pos hhex⟩
    · cases h
  · next c rest _ =>
    split at h
    · next hc =>
      obtain rfl := Option.some.inj h
      refine ⟨['\'', '\\', c, '\''], rest, rfl, rfl, fun rest' => ?_⟩
      exact (charWidth?_escape ..).trans (if_pos hc)
    · cases h
  · next c rest _ =>
    split at h
    · cases h
    · next hc =>
      obtain rfl := Option.some.inj h
      exact ⟨['\'', c, '\''], rest, rfl, rfl, fun rest' => charWidth?_other _ hc⟩
  · cases h

/-- A run of characters ends in front of a character that cannot go on with it, and is the same in front
of any other such. -/
theorem exists_of_takeWhile (p : Char → Bool) (cs : List Char) :
    ∃ u rest, u ++ rest = cs ∧ u.length = (cs.takeWhile p).length ∧
      (∀ c ∈ rest.head?, (!p c) = true) ∧
      ∀ rest', (∀ c ∈ rest'.head?, (!p c) = true) → (u ++ rest').takeWhile p = u := by
  refine ⟨cs.takeWhile p, cs.dropWhile p, List.takeWhile_append_dropWhile, rfl, ?_, ?_⟩
  · intro c hc
    have hfind : cs.find? (fun c => !p c) = some c :=
      (List.find?_not_eq_head?_dropWhile p cs).trans hc
    exact List.find?_some (p := fun c => !p c) hfind
  · intro rest' h
    have hrest : rest'.takeWhile p = [] := by
      cases rest' with
      | nil => rfl
      | cons c rest' => rw [List.takeWhile_cons_of_neg (by simpa using h c rfl)]
    rw [List.takeWhile_append_of_pos fun c hc => List.mem_takeWhile_imp hc, hrest,
      List.append_nil]

/-- **A rule takes the front of a text, which can end there, and takes it wherever it can end.** -/
theorem exists_of_width? {r : Rule} {cs : List Char} {n : ℕ} (h : r.width? cs = some n) :
    ∃ u rest, u ++ rest = cs ∧ u.length = n ∧ (∀ c ∈ rest.head?, r.endsBefore c = true) ∧
      ∀ rest', (∀ c ∈ rest'.head?, r.endsBefore c = true) → r.width? (u ++ rest') = some n := by
  unfold width? at h
  split at h
  · obtain ⟨u, rest, rfl, hlen, hu⟩ := exists_of_commentEnd? h
    exact ⟨'(' :: '*' :: u, rest, rfl, (Nat.add_comm _ 2).trans hlen, fun _ _ => rfl,
      fun rest' _ => hu rest'⟩
  · next cs =>
    obtain ⟨u, rest, rfl, hlen, hrest, hu⟩ := exists_of_takeWhile (· != '\n') cs
    obtain rfl := Option.some.inj h
    refine ⟨'-' :: '-' :: u, rest, rfl, by rw [← hlen]; exact Nat.add_comm _ 2, ?_,
      fun rest' h' => ?_⟩
    · simpa [endsBefore] using hrest
    · rw [List.cons_append, List.cons_append, width?, hu rest' (by simpa [endsBefore] using h'),
        hlen]
  · next first more _ c cs =>
    split at h
    · next hc =>
      obtain rfl := Option.some.inj h
      rw [Bool.and_eq_true, List.isPrefixOf_iff_prefix] at hc
      obtain ⟨hc, rest, rfl⟩ := hc
      refine ⟨c :: more, rest, rfl, Nat.add_comm .., fun _ _ => rfl, fun rest' _ => ?_⟩
      rw [List.cons_append, width?, hc]
      simp
    · cases h
  · obtain ⟨u, rest, rfl, hlen, hu⟩ := exists_of_charWidth? h
    exact ⟨u, rest, rfl, hlen, fun _ _ => rfl, fun rest' _ => hu rest'⟩
  · obtain ⟨u, rest, rfl, hlen, hu⟩ := exists_of_stringEnd? h
    exact ⟨'"' :: u, rest, rfl, (Nat.add_comm ..).trans hlen, fun _ _ => rfl,
      fun rest' _ => hu rest'⟩
  · next cs =>
    obtain rfl := Option.some.inj h
    exact ⟨['\n'], cs, rfl, rfl, fun _ _ => rfl, fun _ _ => rfl⟩
  · next c cs =>
    split at h
    · next hc =>
      obtain rfl := Option.some.inj h
      exact ⟨[c], cs, rfl, rfl, fun _ _ => rfl, fun _ _ => if_pos hc⟩
    · cases h
  · next c cs =>
    split at h
    · next hc =>
      obtain rfl := Option.some.inj h
      obtain ⟨u, rest, rfl, hlen, hrest, hu⟩ := exists_of_takeWhile isDigit cs
      refine ⟨c :: u, rest, rfl, by rw [← hlen]; exact Nat.add_comm .., hrest, fun rest' h' => ?_⟩
      rw [List.cons_append, width?, if_pos hc, hu rest' h', hlen]
    · cases h
  · next c cs =>
    split at h
    · next hc =>
      obtain rfl := Option.some.inj h
      obtain ⟨u, rest, rfl, hlen, hrest, hu⟩ := exists_of_takeWhile isWordPart cs
      refine ⟨c :: u, rest, rfl, by rw [← hlen]; exact Nat.add_comm .., hrest, fun rest' h' => ?_⟩
      rw [List.cons_append, width?, if_pos hc, hu rest' h', hlen]
    · cases h
  · next c cs =>
    split at h
    · cases h
    · next hc =>
      obtain rfl := Option.some.inj h
      exact ⟨[c], cs, rfl, rfl, fun _ _ => rfl, fun _ _ => if_neg hc⟩
  · cases h

theorem isWordPart_eq_false_of_isBlank {c : Char} (h : Text.isBlank c = true) :
    isWordPart c = false := by
  by_contra hpart
  have hle (a b : Char) : a ≤ b ↔ a.toNat ≤ b.toNat := Iff.rfl
  -- letters, digits and the underscore lie between the space and the separators outside of ASCII
  have hrange : 48 ≤ c.toNat ∧ c.toNat ≤ 122 := by
    simp only [isWordPart, isWordStart, isDigit, Bool.not_eq_false, Bool.or_eq_true,
      Bool.and_eq_true, decide_eq_true_eq, beq_iff_eq, hle, Char.reduceToNat] at hpart
    rcases hpart with ((hpart | hpart) | rfl) | hpart
    · omega
    · omega
    · decide
    · omega
  simp only [Text.isBlank, Bool.or_eq_true, Bool.and_eq_true, decide_eq_true_eq, beq_iff_eq] at h
  omega

/-- White space can follow any text, except that only a line break ends a line comment. -/
theorem endsBefore_of_isBlank {r : Rule} {c : Char} (hc : Text.isBlank c = true)
    (hline : r = lineComment → c = '\n') : r.endsBefore c = true := by
  have hpart := isWordPart_eq_false_of_isBlank hc
  cases r with
  | lineComment => simp [endsBefore, hline rfl]
  | intLiteral => simpa [endsBefore] using (Bool.or_eq_false_iff.mp hpart).2
  | word => simp [endsBefore, hpart]
  | _ => rfl

/-! ### Where a text starts -/

/-- Whether a rule can apply where a character stands. -/
def startsAt : Rule → Char → Bool
  | blockComment, c => c == '('
  | lineComment, c => c == '-'
  | symbol first _ _, c => c == first
  | charLiteral, c => c == '\''
  | stringLiteral, c => c == '"'
  | newline, c => c == '\n'
  | whitespace, c => Text.isBlank c
  | intLiteral, c => isDigit c
  | word, c => isWordStart c
  | other, c => c != '\n'

theorem startsAt_of_width? {r : Rule} {c : Char} {cs : List Char} {n : ℕ}
    (h : r.width? (c :: cs) = some n) : r.startsAt c = true := by
  by_contra hnot
  cases r with
  | charLiteral =>
    rw [width?, charWidth?_of_ne cs (by simpa [startsAt] using hnot)] at h
    cases h
  | _ => simp_all [startsAt, width?]

/-- Whether a rule takes one character and nothing else. -/
def isSingle : Rule → Bool
  | symbol _ more _ => more.isEmpty
  | newline | whitespace | other => true
  | _ => false

theorem eq_one_of_width? {r : Rule} (hr : r.isSingle = true) {cs : List Char} {n : ℕ}
    (h : r.width? cs = some n) : n = 1 := by
  cases cs with
  | nil =>
    rw [width?_nil] at h
    cases h
  | cons c cs =>
    have hstart := startsAt_of_width? h
    cases r with
    | newline | whitespace | other => simp_all [startsAt, width?]
    | symbol first more category =>
      obtain rfl := List.isEmpty_iff.mp hr
      simp_all [startsAt, width?]
    | _ => cases hr

/-- The fixed characters by which a rule is told to apply, if there are such. -/
def sign : Rule → List Char
  | lineComment => ['-', '-']
  | symbol first more _ => first :: more
  | _ => []

theorem sign_of_mem_table : ∀ r ∈ table,
    r.sign.length ≤ 2 ∧ ∀ c ∈ r.sign, Text.isBlank c = false := by
  have key : ∀ r ∈ table, r.sign.length ≤ 2 ∧ r.sign.all (fun c => !Text.isBlank c) = true := by
    decide
  intro r hr
  obtain ⟨hlength, hall⟩ := key r hr
  refine ⟨hlength, fun c hc => ?_⟩
  simpa using List.all_eq_true.mp hall c hc

theorem isSome_width?_iff_sign {r : Rule} (h : r.sign ≠ []) (cs : List Char) :
    (r.width? cs).isSome = true ↔ r.sign <+: cs := by
  cases r with
  | lineComment =>
    constructor
    · rw [width?.eq_def]
      split <;> simp_all [sign]
    · rintro ⟨cs, rfl⟩
      rfl
  | symbol first more category =>
    cases cs with
    | nil => simp [sign]
    | cons c cs =>
      rw [width?, sign, List.cons_prefix_cons]
      split <;> simp_all
  | _ => exact absurd rfl h

end Rule

theorem rule_mem_table {cs rest : List Char} {s : Span} (h : nextSpan? cs = some (s, rest)) :
    s.rule ∈ Rule.table := by
  obtain ⟨earlier, later, htable, -⟩ := (nextSpan?_eq_some_iff.mp h).first
  rw [htable]
  exact List.mem_append_right _ List.mem_cons_self

theorem startsAt_of_nextSpan? {c : Char} {cs rest : List Char} {s : Span}
    (h : nextSpan? (c :: cs) = some (s, rest)) : s.rule.startsAt c = true := by
  obtain ⟨n, hn, -⟩ := exists_of_nextSpan? h
  exact Rule.startsAt_of_width? hn

theorem eq_of_nextSpan?_single {c : Char} {cs rest : List Char} {s : Span}
    (h : nextSpan? (c :: cs) = some (s, rest)) (hs : s.rule.isSingle = true) :
    s.text = [c] ∧ rest = cs := by
  obtain ⟨n, hn, htext, hrest⟩ := exists_of_nextSpan? h
  obtain rfl := Rule.eq_one_of_width? hs hn
  exact ⟨htext, hrest⟩

/-! ### Seams -/

/-- Behind the span `s` the text `rest` may be exchanged for `rest'`. -/
structure Seam (s : Span) (rest rest' : List Char) : Prop where
  /-- What follows starts as before, or with white space that can follow the span. -/
  head : rest'.head? = rest.head? ∨
    ∀ c ∈ rest'.head?, Text.isBlank c = true ∧ (s.rule = .lineComment → c = '\n')
  /-- No quote stands for itself. -/
  quote : s.rule = .other → s.text ≠ ['\''] ∧ s.text ≠ ['"']
  /-- What was no comment does not become one. -/
  comment : Rule.blockComment.width? (s.text ++ rest) = none →
    Rule.blockComment.width? (s.text ++ rest') = none

namespace Seam

variable {s : Span} {rest rest' : List Char}

/-- A sign of at most two characters that stands there now stood there before. -/
theorem sign_before (h : Seam s rest rest') (hs : s.text ≠ []) {l : List Char}
    (hlength : l.length ≤ 2) (hblank : ∀ c ∈ l, Text.isBlank c = false)
    (hl : l <+: s.text ++ rest') : l <+: s.text ++ rest := by
  obtain ⟨a, u, htext⟩ := List.exists_cons_of_ne_nil hs
  rw [htext] at hl ⊢
  match l, hlength with
  | [], _ => exact List.nil_prefix
  | [x], _ => simpa using hl
  | [x, y], _ =>
    obtain ⟨rfl, hy⟩ := List.cons_prefix_cons.mp hl
    refine List.cons_prefix_cons.mpr ⟨rfl, ?_⟩
    cases u with
    | cons b u => simpa using hy
    | nil =>
      -- the second character stands behind the span
      obtain ⟨tail, htail⟩ := hy
      have hhead : rest'.head? = some y := congrArg List.head? htail.symm
      rcases h.head with hsame | hnew
      · obtain ⟨tail', htail'⟩ := List.head?_eq_some_iff.mp (hsame.symm.trans hhead)
        exact ⟨tail', htail'.symm⟩
      · have hy := (hnew y hhead).1
        rw [hblank y (by simp)] at hy
        cases hy

/-- At a quote only the rule for its literals can have taken the span, since that for any character would
have taken the quote alone. -/
theorem rule_of_quote (h : Seam s rest rest') (hs : nextSpan? (s.text ++ rest) = some (s, rest))
    {q : Char} {u : List Char} (htext : s.text = q :: u) :
    (q = '\'' → s.rule = .charLiteral) ∧ (q = '"' → s.rule = .stringLiteral) := by
  rw [htext, List.cons_append] at hs
  have hmem := rule_mem_table hs
  have hstart := startsAt_of_nextSpan? hs
  have hother (hr : s.rule = .other) : s.text = [q] :=
    (eq_of_nextSpan?_single hs (by rw [hr]; rfl)).1
  have key : ∀ r ∈ Rule.table, (r.startsAt '\'' = true → r = .charLiteral ∨ r = .other) ∧
      (r.startsAt '"' = true → r = .stringLiteral ∨ r = .other) := by decide
  constructor
  · rintro rfl
    refine ((key _ hmem).1 hstart).resolve_right ?_
    intro hr
    exact (h.quote hr).1 (hother hr)
  · rintro rfl
    refine ((key _ hmem).2 hstart).resolve_right ?_
    intro hr
    exact (h.quote hr).2 (hother hr)

/-- A rule that failed fails behind a seam as well. -/
theorem width?_eq_none (h : Seam s rest rest') (hs : nextSpan? (s.text ++ rest) = some (s, rest))
    {r : Rule} (hr : r ∈ Rule.table) (hnone : r.width? (s.text ++ rest) = none) :
    r.width? (s.text ++ rest') = none := by
  have hne := text_ne_nil_of_nextSpan? hs
  by_cases hsign : r.sign = []
  · obtain ⟨q, u, htext⟩ := List.exists_cons_of_ne_nil hne
    obtain ⟨hchar, hstring⟩ := h.rule_of_quote hs htext
    obtain ⟨n, hn, -⟩ := exists_of_nextSpan? hs
    cases r with
    | blockComment => exact h.comment hnone
    | lineComment | symbol => cases hsign
    | charLiteral =>
      rw [htext, List.cons_append]
      refine Rule.charWidth?_of_ne _ fun hq => ?_
      rw [← hchar hq, hn] at hnone
      cases hnone
    | stringLiteral =>
      have hq : q ≠ '"' := fun hq => by
        rw [← hstring hq, hn] at hnone
        cases hnone
      simp [htext, Rule.width?, hq]
    | newline =>
      have hq : q ≠ '\n' := by
        rintro rfl
        rw [htext] at hnone
        cases hnone
      simp [htext, Rule.width?, hq]
    | whitespace | intLiteral | word | other => simpa [htext, Rule.width?] using hnone
  · -- signs are too short to reach further than one character behind the span
    obtain ⟨hlength, hblank⟩ := Rule.sign_of_mem_table r hr
    rw [← Option.not_isSome_iff_eq_none, Rule.isSome_width?_iff_sign hsign] at hnone ⊢
    exact fun hl => hnone (h.sign_before hne hlength hblank hl)

/-- The rule of the span takes the same behind a seam. -/
theorem width?_rule (h : Seam s rest rest') (hs : nextSpan? (s.text ++ rest) = some (s, rest)) :
    s.rule.width? (s.text ++ rest') = some s.text.length := by
  obtain ⟨n, hn, htext, hrest⟩ := exists_of_nextSpan? hs
  obtain ⟨u, rest₀, hsplit, hlen, hend, htakes⟩ := Rule.exists_of_width? hn
  rw [← hsplit, ← hlen, List.take_left] at htext
  rw [← hsplit, ← hlen, List.drop_left] at hrest
  subst hrest
  rw [htext, hlen]
  refine htakes rest' fun c hc => ?_
  rcases h.head with hsame | hblank
  · exact hend c (hsame ▸ hc)
  · exact Rule.endsBefore_of_isBlank (hblank c hc).1 (hblank c hc).2

end Seam

/-- **The next span stays the next one.** -/
theorem nextSpan?_of_seam {s : Span} {rest rest' : List Char}
    (hs : nextSpan? (s.text ++ rest) = some (s, rest)) (h : Seam s rest rest') :
    nextSpan? (s.text ++ rest') = some (s, rest') := by
  obtain ⟨earlier, r, later, htable, hr, hearlier⟩ := List.findSome?_eq_some_iff.mp hs
  obtain ⟨n, hn, hspan⟩ := Option.map_eq_some_iff.mp hr
  obtain rfl : r = s.rule := congrArg (fun p => p.1.rule) hspan
  refine List.findSome?_eq_some_iff.mpr ⟨earlier, s.rule, later, htable, ?_, fun q hq => ?_⟩
  · rw [h.width?_rule hs, Option.map_some, List.take_left, List.drop_left]
  · have hmem : q ∈ Rule.table := by simp [htable, hq]
    rw [h.width?_eq_none hs hmem (Option.map_eq_none_iff.mp (hearlier q hq))]
    rfl

/-! ### White space -/

/-- At white space only the rules for white space apply, and that for any character. -/
theorem Rule.eq_of_startsAt_blank {r : Rule} (hr : r ∈ table) {b : Char}
    (hb : Text.isBlank b = true) (h : r.startsAt b = true) :
    r = newline ∨ r = whitespace ∨ r = other := by
  obtain ⟨hword, hdigit⟩ := Bool.or_eq_false_iff.mp (isWordPart_eq_false_of_isBlank hb)
  cases r with
  | newline => exact .inl rfl
  | whitespace => exact .inr (.inl rfl)
  | other => exact .inr (.inr rfl)
  | intLiteral => simp [startsAt, hdigit] at h
  | word => simp [startsAt, hword] at h
  | symbol first more category =>
    obtain rfl : b = first := by simpa [startsAt] using h
    have hsign := (sign_of_mem_table _ hr).2 b List.mem_cons_self
    rw [hb] at hsign
    cases hsign
  | blockComment | lineComment | charLiteral | stringLiteral =>
    obtain rfl : b = _ := by simpa [startsAt] using h
    exact absurd hb (by decide)

/-- White space is a span of its own and becomes no token. -/
theorem exists_nextSpan?_blank {b : Char} (hb : Text.isBlank b = true) (cs : List Char) :
    ∃ s, nextSpan? (b :: cs) = some (s, cs) ∧ s.category? = none ∧ s.text = [b] := by
  cases hs : nextSpan? (b :: cs) with
  | none => cases nextSpan?_eq_none_iff.mp hs
  | some p =>
    obtain ⟨s, rest⟩ := p
    have hrule : s.rule = .newline ∨ s.rule = .whitespace := by
      rcases Rule.eq_of_startsAt_blank (rule_mem_table hs) hb (startsAt_of_nextSpan? hs)
        with hr | hr | hr
      · exact .inl hr
      · exact .inr hr
      · -- the rule for white space stands before the one for any character
        have hnone := (nextSpan?_eq_some_iff.mp hs).rests_eq_nil (r := .whitespace)
          (by rw [hr]; decide)
        rw [← Rule.width?_eq_none_iff, Rule.width?, if_pos hb] at hnone
        cases hnone
    obtain ⟨htext, rfl⟩ := eq_of_nextSpan?_single hs (by rcases hrule with hr | hr <;> rw [hr] <;> rfl)
    refine ⟨s, rfl, ?_, htext⟩
    rcases hrule with hr | hr <;> rw [Span.category?, hr] <;> rfl

end Drac.Lexer
