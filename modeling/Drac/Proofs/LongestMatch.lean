import Drac.Proofs.Locality
import Drac.Proofs.Positions

/-!
# The first match is the longest

The lexer takes what the first rule of the table takes that applies, and does not look at the others.  It
loses nothing by that: no other rule would have taken more.  A rule that takes one character only cannot,
and every other rule comes first among those that can apply where it does.  The only exceptions are the
signs `<=` and `<>`, which share their first character, but they never apply both.

## Main definitions

* `Begins source offset s` — the lexer of a text begins a match at an offset, and the match is `s`.
* `Rule.candidates` — the rules that can apply where a character stands.

## Main results

* `Begins.nextSpan?` — where a match begins, it is the next span of what is left of the text.
* `Rule.head?_candidates` — a rule that can take more than one character comes first.
* `nextSpan?_of_width?` — so it is the one that takes the next span.
* `longest_of_begins` — **no rule takes more than the first one.**
-/

namespace Drac.Lexer

/-! ### Where matches begin -/

/-- The lexer of a text, after some requests and behind spans that became no token, begins a match at an
offset of the text, and the match is the span. -/
def Begins (source : String) (offset : ℕ) (s : Span) : Prop :=
  ∃ (reportLimit : ℕ) (preferences : Preferences) (n : ℕ) (lexer : Lexer) (rest : List Char),
    Skips ((ofString reportLimit preferences source).after n) lexer ∧
      lexer.place.index = offset ∧ nextSpan? lexer.rest = some (s, rest)

/-- Where a match begins, it is the next span of what is left of the text. -/
theorem Begins.nextSpan? {source : String} {offset : ℕ} {s : Span} (h : Begins source offset s) :
    nextSpan? (source.toList.drop offset) =
      some (s, (source.toList.drop offset).drop s.text.length) := by
  obtain ⟨reportLimit, preferences, n, lexer, rest, hlexer, rfl, hs⟩ := h
  obtain ⟨_, hstart⟩ := (reads_ofList reportLimit preferences source.toList).after n
  obtain ⟨before, hreads⟩ := hlexer.reads hstart
  have hindex : lexer.place.index = before.length := by
    rw [hreads.place]
    rfl
  have hleft : source.toList.drop lexer.place.index = lexer.rest := by
    rw [hindex, ← hreads.split, List.drop_left]
  rw [hleft, hs, ← nextSpan?_append hs, List.drop_left]

/-! ### Candidates -/

namespace Rule

/-- The rules that can apply where a character stands, in the order in which they are tried. -/
def candidates (c : Char) : List Rule := table.filter (·.startsAt c)

theorem beq_eq_false_of_isWordPart {c d : Char} (hc : isWordPart c = true)
    (hd : isWordPart d = false) : (c == d) = false := by
  rw [beq_eq_false_iff_ne]
  rintro rfl
  rw [hc] at hd
  cases hd

theorem isBlank_eq_false_of_isWordPart {c : Char} (hc : isWordPart c = true) :
    Text.isBlank c = false := by
  by_contra hblank
  rw [isWordPart_eq_false_of_isBlank (by simpa using hblank)] at hc
  cases hc

/-- Digits start no word. -/
theorem isWordStart_eq_false_of_isDigit {c : Char} (hc : isDigit c = true) :
    isWordStart c = false := by
  have hle (a b : Char) : a ≤ b ↔ a.toNat ≤ b.toNat := Iff.rfl
  simp only [isDigit, Bool.and_eq_true, decide_eq_true_eq, hle, Char.reduceToNat] at hc
  by_contra hstart
  simp only [isWordStart, Bool.not_eq_false, Bool.or_eq_true, Bool.and_eq_true, decide_eq_true_eq,
    beq_iff_eq, hle, Char.reduceToNat] at hstart
  rcases hstart with (h | h) | rfl
  · omega
  · omega
  · exact absurd hc (by decide)

/-- Where a number or a word can go on, no sign, no quoted text and no white space can start. -/
theorem candidates_of_isWordPart {c : Char} (hc : isWordPart c = true) : candidates c =
    [intLiteral, word, other].filter (·.startsAt c) := by
  have hblank := isBlank_eq_false_of_isWordPart hc
  have hne {d : Char} : isWordPart d = false → (c == d) = false := beq_eq_false_of_isWordPart hc
  simp (disch := decide) [candidates, table, List.filter_cons, startsAt, hblank, hne]

theorem candidates_of_isDigit {c : Char} (hc : isDigit c = true) :
    candidates c = [intLiteral, other] := by
  have hpart : isWordPart c = true := by simp [isWordPart, hc]
  have hother : (c != '\n') = true := by
    simp [bne, beq_eq_false_of_isWordPart hpart (d := '\n') (by decide)]
  rw [candidates_of_isWordPart hpart]
  simp [startsAt, hc, isWordStart_eq_false_of_isDigit hc, hother]

theorem candidates_of_isWordStart {c : Char} (hc : isWordStart c = true) :
    candidates c = [word, other] := by
  have hpart : isWordPart c = true := by simp [isWordPart, hc]
  have hother : (c != '\n') = true := by
    simp [bne, beq_eq_false_of_isWordPart hpart (d := '\n') (by decide)]
  have hdigit : isDigit c = false := by
    by_contra hdigit
    rw [isWordStart_eq_false_of_isDigit (by simpa using hdigit)] at hc
    cases hc
  rw [candidates_of_isWordPart hpart]
  simp [startsAt, hc, hdigit, hother]

/-- A rule that can take more than one character comes first where it can apply, but for the sign `<>`,
in front of which the sign `<=` is tried. -/
theorem head?_candidates {r : Rule} (hr : r ∈ table) (hlong : r.isSingle = false) {c : Char}
    (hc : r.startsAt c = true) :
    (candidates c).head? = some r ∨ r = symbol '<' ['>'] .notEqual := by
  cases r with
  | newline | whitespace | other => cases hlong
  | intLiteral =>
    rw [candidates_of_isDigit hc]
    exact .inl rfl
  | word =>
    rw [candidates_of_isWordStart hc]
    exact .inl rfl
  | blockComment | lineComment | charLiteral | stringLiteral =>
    obtain rfl : c = _ := by simpa [startsAt] using hc
    exact .inl (by decide)
  | symbol first more category =>
    have key : ∀ r ∈ table, r.isSingle = true ∨ r.sign = [] ∨
        (r.sign.head?.bind fun c => (candidates c).head?) = some r ∨
          r = symbol '<' ['>'] .notEqual := by decide
    obtain rfl : c = first := by simpa [startsAt] using hc
    rcases key _ hr with hsingle | hsign | hfirst | hnotEqual
    · rw [hlong] at hsingle
      cases hsingle
    · cases hsign
    · exact .inl hfirst
    · exact .inr hnotEqual

end Rule

open Rule (candidates)

variable {c : Char} {cs : List Char} {r : Rule} {n : ℕ}

theorem findSome?_filter {α β : Type*} {p : α → Bool} {f : α → Option β}
    (h : ∀ a, p a = false → f a = none) (l : List α) : (l.filter p).findSome? f = l.findSome? f := by
  induction l with
  | nil => rfl
  | cons a l ih =>
    rw [List.filter_cons]
    cases hp : p a with
    | false => simp [h a hp, ih]
    | true => simp [List.findSome?_cons, ih]

/-- Only candidates are looked at for the next span. -/
theorem nextSpan?_cons (c : Char) (cs : List Char) :
    nextSpan? (c :: cs) = (candidates c).findSome? fun r =>
      (r.width? (c :: cs)).map fun n => (⟨r, (c :: cs).take n⟩, (c :: cs).drop n) := by
  symm
  apply findSome?_filter
  intro q hq
  rw [Option.map_eq_none_iff]
  apply Option.eq_none_iff_forall_ne_some.mpr
  intro m hm
  rw [Rule.startsAt_of_width? hm] at hq
  cases hq

/-- The first candidate takes the next span if it applies. -/
theorem nextSpan?_of_first (hrules : (candidates c).head? = some r) (hr : r.width? (c :: cs) = some n) :
    nextSpan? (c :: cs) = some (⟨r, (c :: cs).take n⟩, (c :: cs).drop n) := by
  obtain ⟨later, hrules⟩ := List.head?_eq_some_iff.mp hrules
  rw [nextSpan?_cons, hrules]
  simp [hr]

/-- The second candidate takes the next span if it applies and the first one does not. -/
theorem nextSpan?_of_second {q : Rule} {later : List Rule} (hrules : candidates c = q :: r :: later)
    (hq : q.width? (c :: cs) = none) (hr : r.width? (c :: cs) = some n) :
    nextSpan? (c :: cs) = some (⟨r, (c :: cs).take n⟩, (c :: cs).drop n) := by
  rw [nextSpan?_cons, hrules]
  simp [hq, hr]

/-! ### Rules that can take more than one character -/

/-- The signs that start with `<` do not apply both. -/
theorem width?_lessEqual_of_notEqual {category category' : Category}
    (h : (Rule.symbol '<' ['>'] category).width? ('<' :: cs) = some n) :
    (Rule.symbol '<' ['='] category').width? ('<' :: cs) = none := by
  cases cs with
  | nil => simp [Rule.width?] at h
  | cons d cs =>
    have hd : d = '>' := by
      by_contra hne
      simp [Rule.width?, Ne.symm hne] at h
    simp [Rule.width?, hd]

/-- Where a rule applies that can take more than one character, it takes the next span. -/
theorem nextSpan?_of_width? (hr : r ∈ Rule.table) (hlong : r.isSingle = false)
    (h : r.width? cs = some n) : nextSpan? cs = some (⟨r, cs.take n⟩, cs.drop n) := by
  cases cs with
  | nil =>
    rw [Rule.width?_nil] at h
    cases h
  | cons c cs =>
    have hstart := Rule.startsAt_of_width? h
    rcases Rule.head?_candidates hr hlong hstart with hhead | rfl
    · exact nextSpan?_of_first hhead h
    · obtain rfl : c = '<' := by simpa [Rule.startsAt] using hstart
      have hrules : candidates '<' = [.symbol '<' ['='] .lessEqual, .symbol '<' ['>'] .notEqual,
          .symbol '<' [] .less, .other] := by decide
      exact nextSpan?_of_second hrules (width?_lessEqual_of_notEqual h) h

/-! ### Longest matches -/

/-- **No rule takes more than the first one.**  Where the lexer begins a match, every rule of the table that
matches there, tried alone, takes at most as much as the span holds.  If it is the rule of words, of
numbers, or of a sign of two characters, the span is what it takes; and no word or number is followed by
a character that would go on with it. -/
theorem longest_of_begins {source : String} {offset : ℕ} {s : Span} (h : Begins source offset s) :
    let cs := source.toList.drop offset
    (∀ r ∈ Rule.table, ∀ rest, r.pattern.preferred? cs = some rest →
      ∃ text, text ++ rest = cs ∧ text.length ≤ s.text.length ∧
        (r = .word ∨ r = .intLiteral ∨ (∃ a b category, r = .symbol a [b] category) →
          s = ⟨r, text⟩)) ∧
      ∀ c ∈ (cs.drop s.text.length).head?,
        (s.rule = .word → Rule.isWordPart c = false) ∧
          (s.rule = .intLiteral → Rule.isDigit c = false) := by
  intro cs
  have hs : nextSpan? cs = some (s, cs.drop s.text.length) := h.nextSpan?
  constructor
  · intro r hr rest hrest
    rw [← Rule.drop_width?] at hrest
    obtain ⟨n, hn, hdrop⟩ := Option.map_eq_some_iff.mp hrest
    refine ⟨cs.take n, by rw [← hdrop, List.take_append_drop], ?_⟩
    cases hsingle : r.isSingle with
    | true =>
      -- the rule takes one character, and no span is empty
      obtain rfl := Rule.eq_one_of_width? hsingle hn
      constructor
      · have hpos : 0 < s.text.length := List.length_pos_iff.mpr (text_ne_nil_of_nextSpan? hs)
        rw [List.length_take]
        omega
      · rintro (rfl | rfl | ⟨a, b, category, rfl⟩) <;> cases hsingle
    | false =>
      have hspan : s = ⟨r, cs.take n⟩ := by
        rw [nextSpan?_of_width? hr hsingle hn] at hs
        exact (congrArg Prod.fst (Option.some.inj hs)).symm
      rw [hspan]
      exact ⟨Nat.le_refl _, fun _ => rfl⟩
  · intro c hc
    obtain ⟨n, hn, -, hleft⟩ := exists_of_nextSpan? hs
    obtain ⟨u, rest, hsplit, hlen, hend, -⟩ := Rule.exists_of_width? hn
    rw [hleft, ← hsplit, ← hlen, List.drop_left] at hc
    have hbefore := hend c hc
    constructor
    · intro hr
      simpa [hr, Rule.endsBefore] using hbefore
    · intro hr
      simpa [hr, Rule.endsBefore] using hbefore

/-- In `x<=12` the sign of two characters is taken, and the sign `<`, tried alone, would take less. -/
theorem longest_of_begins_lessEqual :
    Begins "x<=12" 1 ⟨.symbol '<' ['='] .lessEqual, ['<', '=']⟩ ∧
      ∃ text, text ++ ['=', '1', '2'] = ['<', '=', '1', '2'] ∧ text.length ≤ 2 := by
  have hbegins : Begins "x<=12" 1 ⟨.symbol '<' ['='] .lessEqual, ['<', '=']⟩ :=
    ⟨20, ⟨true, true⟩, 1, _, ['1', '2'], .refl _, by decide +kernel, by decide +kernel⟩
  obtain ⟨hlongest, -⟩ := longest_of_begins hbegins
  obtain ⟨text, htext, hle, -⟩ :=
    hlongest (.symbol '<' [] .less) (by decide) ['=', '1', '2'] (by decide +kernel)
  exact ⟨hbegins, text, htext, hle⟩

end Drac.Lexer
