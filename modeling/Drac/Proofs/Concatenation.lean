import Drac.Proofs.Appending
import Drac.Proofs.Locality
import Drac.Proofs.TokensOfText

/-!
# Texts one after the other

A program can be put in front of any text, a line break between them, and the text is recognized as it is
alone, on lines further down.  Nothing in the program can reach over the line break: it has no stray quote,
since that would be an illegal character, and no comment that is still open, since a bracket and a star
would stand side by side.

## Main definitions

* `Lexer.Closed` — no span of a text reaches over a line break put behind the text.
* `Token.lower` — a token on a line further down.

## Main results

* `Lexer.Closed.spans_append` — the spans of two texts with a line break between them.
* `tokensOf_append` — the tokens of the two texts.
* `checkSource_append` — **behind a program a text is recognized as it is alone.**
-/

namespace Drac

namespace Lexer

/-! ### Texts that a line break closes -/

/-- The two signs that open a comment if they stand side by side, and their categories. -/
def commentSigns : List (Char × Category) := [('(', .openParen), ('*', .mul)]

/-- No character is illegal, and no bracket is followed by a star, so that no span reaches over a line
break behind the text. -/
structure Closed (cs : List Char) : Prop where
  legal : ∀ s ∈ spans cs, s.rule ≠ .other
  apart : ¬ [.openParen, .mul] <:+: (spans cs).filterMap Span.category?

namespace Closed

variable {cs rest : List Char} {s : Span}

theorem of_nextSpan? (h : Closed cs) (hs : nextSpan? cs = some (s, rest)) : Closed rest where
  legal t ht := h.legal t (by rw [spans_of_nextSpan? hs]; exact List.mem_cons_of_mem _ ht)
  apart hpair := by
    apply h.apart
    rw [spans_of_nextSpan? hs]
    exact hpair.trans ((List.suffix_cons s (spans rest)).filterMap _).isInfix

theorem rule_ne_other (h : Closed cs) (hs : nextSpan? cs = some (s, rest)) : s.rule ≠ .other :=
  h.legal s (by rw [spans_of_nextSpan? hs]; exact List.mem_cons_self)

/-- A bracket or a star is a span of its own if no comment starts with it. -/
theorem category?_of_nextSpan? {c : Char} {category : Category} (h : Closed (c :: cs))
    (hc : (c, category) ∈ commentSigns) (hnone : Rule.blockComment.width? (c :: cs) = none)
    (hs : nextSpan? (c :: cs) = some (s, rest)) : rest = cs ∧ s.category? = some category := by
  have key : ∀ r ∈ Rule.table, ∀ p ∈ commentSigns, r.startsAt p.1 = true →
      r = .blockComment ∨ r = .other ∨ r = .symbol p.1 [] p.2 := by decide
  rcases key s.rule (rule_mem_table hs) (c, category) hc (startsAt_of_nextSpan? hs)
    with hr | hr | hr
  · obtain ⟨n, hn, -⟩ := exists_of_nextSpan? hs
    rw [hr, hnone] at hn
    cases hn
  · exact absurd hr (h.rule_ne_other hs)
  · refine ⟨(eq_of_nextSpan?_single hs (by rw [hr]; rfl)).2, ?_⟩
    rw [Span.category?, hr]
    rfl

/-- What is not the start of a comment does not become one. -/
theorem comment (h : Closed (s.text ++ rest)) (hs : nextSpan? (s.text ++ rest) = some (s, rest))
    (hnone : Rule.blockComment.width? (s.text ++ rest) = none) (more : List Char) :
    Rule.blockComment.width? (s.text ++ (rest ++ '\n' :: more)) = none := by
  rw [Rule.width?_blockComment_eq_none_iff]
  rintro ⟨u, hu, -⟩
  obtain ⟨c, v, htext⟩ := List.exists_cons_of_ne_nil (text_ne_nil_of_nextSpan? hs)
  rw [htext, List.cons_append] at hu h hs hnone
  obtain ⟨rfl, hstar⟩ := List.cons.inj hu
  -- the bracket is a span, so the star comes next
  have hopen : rest = v ++ rest ∧ s.category? = some .openParen :=
    h.category?_of_nextSpan? (by decide) hnone hs
  have hv : v = [] := List.self_eq_append_left.mp hopen.1
  rw [hv, List.nil_append] at h hs hstar
  cases rest with
  | nil => exact absurd (List.cons.inj hstar).1 (by decide)
  | cons d rest =>
    obtain ⟨rfl, -⟩ := List.cons.inj hstar
    -- the star is a span as well, and the two stand side by side
    cases hs' : nextSpan? ('*' :: rest) with
    | none => cases nextSpan?_eq_none_iff.mp hs'
    | some p =>
      have hmul : p.2 = rest ∧ p.1.category? = some .mul :=
        (h.of_nextSpan? hs).category?_of_nextSpan? (by decide) rfl hs'
      apply h.apart
      rw [spans_of_nextSpan? hs, spans_of_nextSpan? hs', List.filterMap_cons, hopen.2,
        List.filterMap_cons, hmul.2]
      exact ⟨[], _, rfl⟩

/-- Behind every span there is a seam. -/
theorem seam (h : Closed (s.text ++ rest)) (hs : nextSpan? (s.text ++ rest) = some (s, rest))
    (more : List Char) : Seam s rest (rest ++ '\n' :: more) where
  head := by
    cases rest with
    | nil =>
      refine .inr fun c hc => ?_
      obtain rfl : '\n' = c := Option.some.inj hc
      exact ⟨by decide, fun _ => rfl⟩
    | cons c rest => exact .inl rfl
  quote hr := absurd hr (h.rule_ne_other hs)
  comment hnone := h.comment hs hnone more

/-- The spans of two texts with a line break between them are those of both and the line break. -/
theorem spans_append (h : Closed cs) (more : List Char) :
    spans (cs ++ '\n' :: more) = spans cs ++ spans ('\n' :: more) := by
  fun_induction spans cs with
  | case1 cs hnone => rw [nextSpan?_eq_none_iff.mp hnone, List.nil_append, List.nil_append]
  | case2 cs s rest hs ih =>
    have hrest := h.of_nextSpan? hs
    obtain rfl := nextSpan?_append hs
    have hnext := nextSpan?_of_seam hs (h.seam hs more)
    rw [List.append_assoc, spans_of_nextSpan? hnext, ih hrest, List.cons_append]

end Closed

end Lexer

/-! ### Tokens further down -/

/-- A token on a line further down. -/
def Token.lower (lines : ℕ) (t : Token) : Token :=
  { t with position := ⟨t.position.line + lines, t.position.column⟩ }

/-- Behind a line break lines start as they did, further on. -/
theorem lineStart_append (before text : List Char) :
    lineStart (before ++ '\n' :: text) = before.length + 1 + lineStart text := by
  by_cases h : '\n' ∈ text
  · obtain ⟨lines, line, rfl, hline⟩ := eq_append_lineBreak_of_mem h
    rw [← List.cons_append, ← List.append_assoc, lineStart_append_lineBreak _ hline,
      lineStart_append_lineBreak _ hline, List.length_append, List.length_cons]
    omega
  · have hzero : lineStart text = 0 := lineStart_append_of_notMem [] h
    rw [lineStart_append_lineBreak before h, hzero, Nat.add_zero]

theorem position_behind_append (before text : List Char) :
    (Place.behind (before ++ '\n' :: text)).position =
      ⟨(Place.behind text).position.line + (1 + before.count '\n'),
        (Place.behind text).position.column⟩ := by
  have hline : 1 + (before ++ '\n' :: text).count '\n' =
      1 + text.count '\n' + (1 + before.count '\n') := by
    rw [List.count_append, List.count_cons_self]
    omega
  have hcolumn : (before ++ '\n' :: text).length - lineStart (before ++ '\n' :: text) + 1 =
      text.length - lineStart text + 1 := by
    rw [lineStart_append, List.length_append, List.length_cons]
    omega
  rw [Place.position, Place.behind, hline, hcolumn]
  rfl

namespace Lexer

theorem tokensFrom_ne_nil (p : Place) (ss : List Span) : tokensFrom p ss ≠ [] := by
  induction ss generalizing p with
  | nil => exact List.cons_ne_nil _ _
  | cons s ss ih =>
    rw [tokensFrom]
    cases s.category? with
    | none => exact ih _
    | some c => exact List.cons_ne_nil _ _

/-- The tokens of the spans of a text and of further spans, which stand behind the text. -/
theorem tokensFrom_spans_append (before cs : List Char) (ss : List Span) :
    tokensFrom (.behind before) (spans cs ++ ss) =
      (tokensFrom (.behind before) (spans cs)).dropLast ++ tokensFrom (.behind (before ++ cs)) ss := by
  fun_induction spans cs generalizing before with
  | case1 cs hnone =>
    rw [nextSpan?_eq_none_iff.mp hnone, List.append_nil]
    rfl
  | case2 cs s rest hs ih =>
    have hplace : (Place.behind before).past s.rule.kind s.text = .behind (before ++ s.text) :=
      past_of_nextSpan? before hs
    have htext : before ++ cs = before ++ s.text ++ rest := by
      rw [List.append_assoc, nextSpan?_append hs]
    rw [List.cons_append, tokensFrom, tokensFrom, hplace, htext, ih]
    cases s.category? with
    | none => rfl
    | some c => rw [List.dropLast_cons_of_ne_nil (tokensFrom_ne_nil _ _)]; rfl

/-- Behind a line break the tokens are the same further down. -/
theorem tokensFrom_behind_append (before text cs : List Char) :
    tokensFrom (.behind (before ++ '\n' :: text)) (spans cs) =
      (tokensFrom (.behind text) (spans cs)).map (Token.lower (1 + before.count '\n')) := by
  fun_induction spans cs generalizing text with
  | case1 =>
    rw [tokensFrom, position_behind_append]
    rfl
  | case2 cs s rest hs ih =>
    have hplace : (Place.behind (before ++ '\n' :: text)).past s.rule.kind s.text =
        .behind (before ++ '\n' :: (text ++ s.text)) := by
      rw [past_of_nextSpan? _ hs, List.append_assoc, List.cons_append]
    rw [tokensFrom, tokensFrom, hplace, past_of_nextSpan? text hs, ih, position_behind_append]
    cases s.category? <;> rfl

end Lexer

open Lexer (Span spans Closed)

variable {source₁ : String}

theorem toList_append_lineBreak (source₁ source₂ : String) :
    (source₁ ++ "\n" ++ source₂).toList = source₁.toList ++ '\n' :: source₂.toList := by
  rw [String.toList_append, String.toList_append, List.append_assoc]
  rfl

/-- The tokens of two texts with a line break between them: those of the first one, without the end of
the input, and those of the second one, further down. -/
theorem tokensOf_append (h : Closed source₁.toList) (source₂ : String) :
    tokensOf (source₁ ++ "\n" ++ source₂) = (tokensOf source₁).dropLast ++
      (tokensOf source₂).map (Token.lower (1 + source₁.toList.count '\n')) := by
  obtain ⟨s, hs, hcategory, htext⟩ :=
    Lexer.exists_nextSpan?_blank (b := '\n') (by decide) source₂.toList
  -- the line break moves the lexer to the start of a line, as it is at the start of a text
  have hstart : Place.start = .behind [] := rfl
  have hplace := Lexer.past_of_nextSpan? source₁.toList hs
  rw [tokensOf, tokensOf, tokensOf, toList_append_lineBreak, h.spans_append, hstart,
    Lexer.tokensFrom_spans_append, List.nil_append, Lexer.spans_of_nextSpan? hs, Lexer.tokensFrom,
    hplace, htext, hcategory]
  exact congrArg _ (Lexer.tokensFrom_behind_append source₁.toList [] source₂.toList)

theorem word_append (h : Closed source₁.toList) (source₂ : String) :
    word (tokensOf (source₁ ++ "\n" ++ source₂)) =
      word (tokensOf source₁) ++ word (tokensOf source₂) := by
  obtain ⟨s, hs, hcategory, -⟩ :=
    Lexer.exists_nextSpan?_blank (b := '\n') (by decide) source₂.toList
  rw [word_tokensOf, word_tokensOf, word_tokensOf, toList_append_lineBreak, h.spans_append,
    List.filterMap_append, Lexer.spans_of_nextSpan? hs, List.filterMap_cons, hcategory]

/-! ### Texts behind a program -/

open Syntax (Outcome Parser Refusal Stops)

/-- A program is closed by a line break. -/
theorem closed_of_stops {limit k : ℕ} (h : Stops limit (word (tokensOf source₁)) k (.ok ())) :
    Closed source₁.toList where
  legal := by
    intro s hs hr
    obtain ⟨-, hsentence⟩ := h.sentence_of_ok (eof_notMem_word _)
    apply hsentence.notMem_illegalChar
    rw [word_tokensOf]
    exact List.mem_filterMap.mpr ⟨s, hs, by rw [Span.category?, hr]; rfl⟩
  apart := by
    rw [← word_tokensOf]
    exact h.not_openParen_mul (eof_notMem_word _)

/-- The token that is found behind a program. -/
theorem tokenAt_append (h : Closed source₁.toList) (source₂ : String) {k : ℕ}
    (hk : k ≤ (word (tokensOf source₂)).length) :
    tokenAt (tokensOf (source₁ ++ "\n" ++ source₂)) ((word (tokensOf source₁)).length + k) =
      (tokenAt (tokensOf source₂) k).lower (1 + source₁.toList.count '\n') := by
  have hlength : (tokensOf source₁).dropLast.length = (word (tokensOf source₁)).length := by
    rw [List.length_dropLast, length_tokensOf, Nat.add_sub_cancel]
  have hlt : k < (tokensOf source₂).length := by
    rw [length_tokensOf]
    exact Nat.lt_succ_of_le hk
  rw [tokenAt, tokensOf_append h, ← hlength, List.getElem?_append_right (Nat.le_add_right ..),
    Nat.add_sub_cancel_left, List.getElem?_map, List.getElem?_eq_getElem hlt, tokenAt_of_lt hlt]
  rfl

/-- **Behind a program**, a line break between them, **a text is recognized as it is alone**: the outcome is
the same, on lines further down, after the tokens of the program and as many of the text. -/
theorem checkSource_append {limits : Limits} {p : Lexer.Preferences} {j₁ : Log.Journal}
    (h : (checkSource limits p source₁ j₁).1 = .ok ()) (q : Lexer.Preferences) (source₂ : String)
    (j₂ j : Log.Journal) :
    (checkSource limits q (source₁ ++ "\n" ++ source₂) j).1 =
        Outcome.mapFound (Token.lower (1 + source₁.toList.count '\n'))
          (checkSource limits q source₂ j₂).1 ∧
      (recognizing limits (lexer limits q (source₁ ++ "\n" ++ source₂)) j).1.2.consumed =
        ((collectTokens limits p source₁ j₁).1.toList.filter fun t => !t.isEof).length +
          (recognizing limits (lexer limits q source₂) j₂).1.2.consumed := by
  rw [outcome_checkSource] at h
  rw [outcome_checkSource, outcome_checkSource, consumed_recognizing, consumed_recognizing,
    toList_collectTokens, length_filter_tokensOf]
  obtain ⟨judgement, hprogram, hjudged⟩ :=
    Parser.exists_stops limits.maxParseDepth (tokensOf source₁)
  obtain rfl : judgement = .ok () := by
    cases judgement with
    | ok => rfl
    | error cause => cases hjudged.symm.trans h
  have hclosed := closed_of_stops hprogram
  rw [(hprogram.sentence_of_ok (eof_notMem_word _)).1] at hprogram
  obtain ⟨judgement, hstops, houtcome⟩ :=
    Parser.exists_stops limits.maxParseDepth (tokensOf source₂)
  -- the run over both words is the run over the program and then the one over the text
  have hboth := hprogram.append hstops
  rw [← word_append hclosed] at hboth
  obtain ⟨hconsumed, hjoined⟩ := Parser.program_of_stops hboth
  refine ⟨?_, hconsumed⟩
  rw [hjoined, houtcome, Outcome.mapFound_mapError, tokenAt_append hclosed _ hstops.le_length]

/-- A line comment behind a program ends at the line break, and what follows is refused where it is refused
alone, two lines further down. -/
theorem checkSource_append_of_comment :
    let limits := Profile.development.limits
    let p : Lexer.Preferences := ⟨true, false⟩
    let j := Log.Journal.empty ⟨.info, true, 4096⟩
    (checkSource limits p "f() \x7b\n\x7d (* done *) -- end" j).1 = .ok () ∧
      (checkSource limits p ("f() \x7b\n\x7d (* done *) -- end" ++ "\n" ++ "var y\n  = 2;") j).1 =
        .error (.unexpectedToken (.category .semicolon) ⟨some "=", .assign, ⟨4, 3⟩⟩) ∧
      (recognizing limits (lexer limits p
        ("f() \x7b\n\x7d (* done *) -- end" ++ "\n" ++ "var y\n  = 2;")) j).1.2.consumed = 7 := by
  intro limits p j
  have hok : (checkSource limits p "f() \x7b\n\x7d (* done *) -- end" j).1 = .ok () := by
    rw [outcome_checkSource]
    decide +kernel
  have hfound : (checkSource limits p "var y\n  = 2;" j).1 =
      .error (.unexpectedToken (.category .semicolon) ⟨some "=", .assign, ⟨2, 3⟩⟩) := by
    rw [outcome_checkSource]
    decide +kernel
  have hconsumed : (recognizing limits (lexer limits p "var y\n  = 2;") j).1.2.consumed = 2 := by
    rw [consumed_recognizing]
    decide +kernel
  have htokens : ((collectTokens limits p "f() \x7b\n\x7d (* done *) -- end" j).1.toList.filter
      fun t => !t.isEof).length = 5 := by
    rw [toList_collectTokens]
    decide +kernel
  obtain ⟨houtcome, hcount⟩ := checkSource_append hok p "var y\n  = 2;" j j
  rw [hfound] at houtcome
  rw [hconsumed, htokens] at hcount
  exact ⟨hok, houtcome, hcount⟩

end Drac
