import Drac.Proofs.Locality
import Drac.Proofs.TokensOfText

/-!
# Other white space between the same tokens

White space and comments only keep tokens apart.  A text is respaced by writing its tokens down in order
with other white space before, between and behind them, where two tokens may only touch if they did so
before.  A respaced text has the same tokens, their positions apart, so it is recognized alike.

What could go wrong is that tokens grow together or that something else is read between them.  A span
depends on what follows it by one character only, unless a comment starts there or a quote stands for
itself.  A comment needs a star with a bracket behind it, and these stand side by side in the respaced
text only if they did so before.

## Main definitions

* `Respaced ss cs` — the characters `cs` are the tokens of the spans `ss` and white space.
* `Respacing source text` — a text is another one respaced.
* `spaced` — the tokens of a text with one space in front of each.
* `Token.unplaced` — a token with its position forgotten.

## Main results

* `Lexer.Respaced.pair_of_pair` — characters side by side were so before.
* `Lexer.Respaced.reading` — respaced spans say the same.
* `Parser.program_of_reading_eq` — the recognizer does not depend on positions.
* `respacing_spaced` — the tokens of a text with spaces between them are the text respaced.
* `checkSource_respaced` — **a respaced text has the same tokens and the same outcome.**
-/

namespace Drac

/-- White space and nothing else. -/
def Text.Blank (cs : List Char) : Prop := ∀ c ∈ cs, isBlank c = true

instance (cs : List Char) : Decidable (Text.Blank cs) :=
  List.decidableBAll (fun c => Text.isBlank c = true) cs

open Text (Blank isBlank)

namespace Lexer

/-- Whether a span becomes no token: comments and white space. -/
def Span.isTrivia (s : Span) : Bool := s.category?.isNone

/-- The characters are the texts of the spans that become tokens, in order, with white space in between
and at the end.  Where something that became no token stood in front of a token, some white space must
stand now. -/
inductive Respaced : List Span → List Char → Prop
  | done {trivia : List Span} {blanks : List Char} (htrivia : ∀ s ∈ trivia, s.isTrivia = true)
      (hblanks : Blank blanks) : Respaced trivia blanks
  | token {trivia ss : List Span} {s : Span} {blanks cs : List Char}
      (htrivia : ∀ s ∈ trivia, s.isTrivia = true) (hblanks : Blank blanks)
      (hgap : blanks = [] → trivia = []) (hs : s.isTrivia = false) (hss : Respaced ss cs) :
      Respaced (trivia ++ s :: ss) (blanks ++ (s.text ++ cs))

/-- Any white space can stand in front of a token. -/
theorem Respaced.cons {s : Span} {ss : List Span} {cs : List Char} (blanks : List Char)
    (hblanks : Blank blanks) (hs : s.isTrivia = false) (h : Respaced ss cs) :
    Respaced (s :: ss) (blanks ++ (s.text ++ cs)) :=
  @Respaced.token [] ss s blanks cs (by simp) hblanks (fun _ => rfl) hs h

/-- In front of the first token no white space is needed. -/
theorem Respaced.dropWhile_isTrivia {ss : List Span} {cs : List Char} (h : Respaced ss cs) :
    Respaced (ss.dropWhile Span.isTrivia) cs := by
  cases h with
  | done htrivia hblanks =>
    rw [List.dropWhile_eq_nil_iff.mpr htrivia]
    exact .done (by simp) hblanks
  | token htrivia hblanks _ hs hss =>
    rw [List.dropWhile_append_of_pos htrivia, List.dropWhile_cons_of_neg (by simp [hs])]
    exact .cons _ hblanks hs hss

/-! ### Characters side by side -/

theorem pair_of_pair_append_blank {a b : Char} (ha : isBlank a = false) (hb : isBlank b = false)
    {v blanks cs : List Char} (hblanks : Blank blanks) (hne : blanks ≠ [])
    (h : [a, b] <:+: v ++ (blanks ++ cs)) : [a, b] <:+: v ∨ [a, b] <:+: cs := by
  have hnot {c : Char} (hc : c ∈ blanks) : a ≠ c ∧ b ≠ c := by
    have hc := hblanks c hc
    constructor <;> rintro rfl <;> simp_all
  induction v with
  | nil =>
    -- the pair does not start in white space, so it stands behind all of it
    clear hne
    induction blanks with
    | nil => exact .inr h
    | cons c blanks ih =>
      rcases List.infix_cons_iff.mp h with hstart | hpair
      · exact absurd (List.cons_prefix_cons.mp hstart).1 (hnot List.mem_cons_self).1
      · exact ih (fun c hc => hblanks c (List.mem_cons_of_mem _ hc))
          (fun hc => hnot (List.mem_cons_of_mem _ hc)) hpair
  | cons c v ih =>
    rcases List.infix_cons_iff.mp h with hstart | hpair
    · obtain ⟨rfl, hrest⟩ := List.cons_prefix_cons.mp hstart
      cases v with
      | nil =>
        -- the second character of the pair would be white space
        obtain ⟨d, blanks, rfl⟩ := List.exists_cons_of_ne_nil hne
        exact absurd (List.cons_prefix_cons.mp hrest).1 (hnot List.mem_cons_self).2
      | cons d v =>
        obtain ⟨rfl, -⟩ := List.cons_prefix_cons.mp hrest
        exact .inl ⟨[], v, rfl⟩
    · exact (ih hpair).imp_left List.infix_cons

/-- Characters that stand side by side after respacing, behind some text, did so before. -/
theorem Respaced.pair_of_pair {a b : Char} (ha : isBlank a = false) (hb : isBlank b = false)
    {ss : List Span} {cs : List Char} (h : Respaced ss cs) (v : List Char)
    (hpair : [a, b] <:+: v ++ cs) : [a, b] <:+: v ++ ss.flatMap Span.text := by
  induction h generalizing v with
  | @done trivia blanks htrivia hblanks =>
    refine List.IsInfix.trans ?_ (List.prefix_append ..).isInfix
    by_cases hne : blanks = []
    · rwa [hne, List.append_nil] at hpair
    · rw [← List.append_nil blanks] at hpair
      refine (pair_of_pair_append_blank ha hb hblanks hne hpair).resolve_right fun h => ?_
      exact absurd (List.eq_nil_of_infix_nil h) (by simp)
  | @token trivia ss s blanks cs htrivia hblanks hgap hs hss ih =>
    rw [List.flatMap_append, List.flatMap_cons]
    by_cases hne : blanks = []
    · -- the token touches what is in front of it, as it did before
      rw [hne, List.nil_append, ← List.append_assoc] at hpair
      rw [hgap hne, List.flatMap_nil, List.nil_append, ← List.append_assoc]
      exact ih _ hpair
    · rcases pair_of_pair_append_blank ha hb hblanks hne hpair with hv | hrest
      · exact hv.trans (List.prefix_append ..).isInfix
      · refine (ih _ hrest).trans (List.IsSuffix.isInfix ?_)
        exact (List.suffix_append ..).trans (List.suffix_append ..)

/-! ### Spans behind spans -/

theorem exists_of_spans_eq_cons {cs : List Char} {s : Span} {ss : List Span}
    (h : spans cs = s :: ss) : ∃ rest, nextSpan? cs = some (s, rest) ∧ ss = spans rest := by
  cases hs : nextSpan? cs with
  | none =>
    rw [nextSpan?_eq_none_iff.mp hs, spans_nil] at h
    cases h
  | some p =>
    rw [spans_of_nextSpan? hs] at h
    cases h
    exact ⟨p.2, rfl, rfl⟩

theorem exists_of_spans_eq_append {cs : List Char} {ss ss' : List Span}
    (h : spans cs = ss ++ ss') : ∃ rest, ss' = spans rest := by
  induction ss generalizing cs with
  | nil => exact ⟨cs, h.symm⟩
  | cons s ss ih =>
    obtain ⟨rest, -, hrest⟩ := exists_of_spans_eq_cons h
    exact ih hrest.symm

theorem flatMap_text_spans (cs : List Char) : (spans cs).flatMap Span.text = cs :=
  (tiles_spans cs).flatMap_text

/-- White space becomes no token. -/
theorem filterMap_reading?_spans_blank {blanks : List Char} (hblanks : Blank blanks)
    (cs : List Char) : (spans (blanks ++ cs)).filterMap Span.reading? =
      (spans cs).filterMap Span.reading? := by
  induction blanks with
  | nil => rfl
  | cons b blanks ih =>
    obtain ⟨s, hs, hcat, -⟩ := exists_nextSpan?_blank (hblanks b List.mem_cons_self) (blanks ++ cs)
    have hnone : s.reading? = none := by rw [Span.reading?_eq_map_category?, hcat]; rfl
    rw [List.cons_append, spans_of_nextSpan? hs, List.filterMap_cons, hnone]
    exact ih fun c hc => hblanks c (List.mem_cons_of_mem _ hc)

theorem filterMap_reading?_trivia {trivia : List Span} (h : ∀ s ∈ trivia, s.isTrivia = true) :
    trivia.filterMap Span.reading? = [] := by
  refine List.filterMap_eq_nil_iff.mpr fun s hs => ?_
  rw [Span.reading?_eq_map_category?, Option.isNone_iff_eq_none.mp (h s hs)]
  rfl

/-! ### Respaced spans -/

/-- A respaced text starts with white space or with the span with which the text started. -/
theorem Respaced.head_cases {cs rest : List Char} (h : Respaced (spans rest) cs) :
    (∀ c ∈ cs.head?, isBlank c = true) ∨ ∃ (s : Span) (cs' rest' : List Char),
      s.text ≠ [] ∧ cs = s.text ++ cs' ∧ rest = s.text ++ rest' ∧
        Respaced (spans rest') cs' := by
  generalize hss : spans rest = ss at h
  cases h with
  | done _ hblanks => exact .inl fun c hc => hblanks c (List.mem_of_mem_head? hc)
  | @token trivia ss s blanks cs _ hblanks hgap _ hss' =>
    cases blanks with
    | nil =>
      rw [hgap rfl] at hss
      obtain ⟨rest', hnext, rfl⟩ := exists_of_spans_eq_cons hss
      exact .inr ⟨s, cs, rest', text_ne_nil_of_nextSpan? hnext, rfl,
        (nextSpan?_append hnext).symm, hss'⟩
    | cons b blanks =>
      refine .inl fun c hc => ?_
      obtain rfl : b = c := Option.some.inj hc
      exact hblanks b List.mem_cons_self

theorem Respaced.head {cs rest : List Char} (h : Respaced (spans rest) cs) :
    cs.head? = rest.head? ∨ ∀ c ∈ cs.head?, isBlank c = true := by
  rcases h.head_cases with hblank | ⟨s, cs', rest', hne, rfl, rfl, -⟩
  · exact .inr hblank
  · exact .inl (by rw [List.head?_append_of_ne_nil _ hne, List.head?_append_of_ne_nil _ hne])

/-- A comment that would start after respacing, with a text and what follows it, started before. -/
theorem Respaced.comment {cs rest : List Char} (h : Respaced (spans rest) cs) {text : List Char}
    (hne : text ≠ []) (hnone : Rule.blockComment.width? (text ++ rest) = none) :
    Rule.blockComment.width? (text ++ cs) = none := by
  -- the end of the comment stands behind the star, wherever the star has come from
  have hend {cs rest : List Char} (h : Respaced (spans rest) cs) (v : List Char)
      (hpair : ['*', ')'] <:+: v ++ cs) : ['*', ')'] <:+: v ++ rest := by
    rw [← flatMap_text_spans rest]
    exact h.pair_of_pair (by decide) (by decide) v hpair
  rw [Rule.width?_blockComment_eq_none_iff] at hnone ⊢
  rintro ⟨u, hu, hpair⟩
  match text, hne with
  | [a], _ =>
    -- the star comes from the next span, since it is no white space
    obtain ⟨rfl, rfl⟩ := List.cons.inj hu
    rcases h.head_cases with hblank | ⟨s, cs', rest', hs, hcs, rfl, h'⟩
    · exact absurd (hblank '*' rfl) (by decide)
    · obtain ⟨c, v, hv⟩ := List.exists_cons_of_ne_nil hs
      rw [hv] at hcs hnone
      obtain ⟨rfl, rfl⟩ := List.cons.inj hcs
      exact hnone ⟨v ++ rest', rfl, hend h' v hpair⟩
  | a :: b :: v, _ =>
    obtain ⟨rfl, hstar⟩ := List.cons.inj hu
    obtain ⟨rfl, rfl⟩ := List.cons.inj hstar
    exact hnone ⟨v ++ rest, rfl, hend h v hpair⟩

/-- A span that becomes a token stays the next one in a respaced text. -/
theorem Respaced.seam {s : Span} {cs rest : List Char}
    (hs : nextSpan? (s.text ++ rest) = some (s, rest)) (h : Respaced (spans rest) cs)
    (htoken : s.isTrivia = false) (hquote : s.rule = .other → s.text ≠ ['\''] ∧ s.text ≠ ['"']) :
    Seam s rest cs where
  head := by
    refine h.head.imp_right fun hblank c hc => ⟨hblank c hc, fun hr => ?_⟩
    rw [Span.isTrivia, Span.category?, hr] at htoken
    cases htoken
  quote := hquote
  comment := h.comment (text_ne_nil_of_nextSpan? hs)

/-- **Respaced spans say the same.** -/
theorem Respaced.reading {ss : List Span} {cs : List Char} (h : Respaced ss cs)
    {source : List Char} (hss : ss = spans source)
    (hquote : ∀ s ∈ ss, s.rule = .other → s.text ≠ ['\''] ∧ s.text ≠ ['"']) :
    (spans cs).filterMap Span.reading? = ss.filterMap Span.reading? := by
  induction h generalizing source with
  | @done trivia blanks htrivia hblanks =>
    rw [filterMap_reading?_trivia htrivia, ← List.append_nil blanks,
      filterMap_reading?_spans_blank hblanks, spans_nil]
    rfl
  | @token trivia ss s blanks cs htrivia hblanks _ hs hss' ih =>
    obtain ⟨source', hsource'⟩ := exists_of_spans_eq_append hss.symm
    obtain ⟨rest, hnext, rfl⟩ := exists_of_spans_eq_cons hsource'.symm
    rw [← nextSpan?_append hnext] at hnext
    have hseam := hss'.seam hnext hs (hquote s (by simp))
    have hmore := ih rfl fun s hs => hquote s (by simp [hs])
    rw [filterMap_reading?_spans_blank hblanks, spans_of_nextSpan? (nextSpan?_of_seam hnext hseam),
      List.filterMap_append, filterMap_reading?_trivia htrivia, List.nil_append,
      List.filterMap_cons, List.filterMap_cons, hmore]

end Lexer

open Lexer (Span spans Respaced)
open Syntax (Outcome Parser Refusal Stops)

/-! ### Outcomes without positions -/

/-- The token with its position forgotten. -/
def Token.unplaced (t : Token) : Token := { t with position := .start }

theorem unplaced_tokenAt (ts : List Token) (k : ℕ) : (tokenAt ts k).unplaced =
    ((ts.map Token.reading)[k]?.map fun r => ⟨r.2, r.1, .start⟩).getD (Token.eof .start) := by
  rw [tokenAt, List.getElem?_map]
  cases ts[k]? <;> rfl

theorem word_eq_of_reading_eq {ts us : List Token}
    (h : ts.map Token.reading = us.map Token.reading) : word ts = word us := by
  have hcategory := congrArg (List.map Prod.fst) h
  rw [List.map_map, List.map_map] at hcategory
  rw [word_eq_takeWhile, word_eq_takeWhile]
  exact congrArg _ hcategory

/-- The recognizer does not depend on positions, but for telling the one of the token it found. -/
theorem Syntax.Parser.program_of_reading_eq (limit : ℕ) {ts us : List Token}
    (h : ts.map Token.reading = us.map Token.reading) :
    Outcome.mapFound Token.unplaced (Parser.start limit ts).program.1 =
      Outcome.mapFound Token.unplaced (Parser.start limit us).program.1 := by
  obtain ⟨j, hstops, houtcome⟩ := exists_stops limit ts
  have hstops' := hstops
  rw [word_eq_of_reading_eq h] at hstops'
  obtain ⟨-, houtcome'⟩ := program_of_stops hstops'
  rw [houtcome, houtcome', Outcome.mapFound_mapError, Outcome.mapFound_mapError, unplaced_tokenAt,
    unplaced_tokenAt, h]

/-! ### Respaced texts -/

/-- The text is made from the tokens of the source in order, with white space before, between and behind
them.  Two tokens may only touch if they did so in the source. -/
def Respacing (source text : String) : Prop :=
  ∃ blanks cs, Blank blanks ∧ text.toList = blanks ++ cs ∧
    Respaced ((spans source.toList).dropWhile Span.isTrivia) cs

/-- The tokens of a text with a space in front of each, and one at the end. -/
def spaced (source : String) : String :=
  .ofList ((tokensOf source).flatMap fun t => ' ' :: t.text.toList)

/-- One space in front of each token will do. -/
theorem respacing_spaced (source : String) : Respacing source (spaced source) := by
  -- what becomes no token is gathered until a token follows
  have hrespaced (p : Place) (ss trivia : List Span) (htrivia : ∀ s ∈ trivia, s.isTrivia = true) :
      Respaced (trivia ++ ss)
        ((Lexer.tokensFrom p ss).flatMap fun t => ' ' :: t.text.toList) := by
    induction ss generalizing p trivia with
    | nil =>
      rw [List.append_nil]
      exact @Respaced.done trivia [' '] htrivia (by decide)
    | cons s ss ih =>
      rw [Lexer.tokensFrom]
      cases hs : s.category? with
      | none =>
        rw [List.append_cons]
        apply ih
        intro t ht
        rcases List.mem_append.mp ht with ht | ht
        · exact htrivia t ht
        · rw [List.mem_singleton.mp ht, Span.isTrivia, hs]
          rfl
      | some c =>
        have hmore := ih (p.past s.rule.kind s.text) [] (by simp)
        have htoken : s.isTrivia = false := by
          rw [Span.isTrivia, hs]
          rfl
        show Respaced _ ([' '] ++ ((String.ofList s.text).toList ++ _))
        rw [String.toList_ofList]
        exact .token htrivia (by decide) (by simp) htoken hmore
  refine ⟨[], _, by decide, String.toList_ofList, ?_⟩
  exact (hrespaced .start (spans source.toList) [] (by simp)).dropWhile_isTrivia

/-- A span that is any character becomes an illegal token with this character. -/
theorem exists_illegalChar_of_mem_spans {source : String} {s : Span} (hs : s ∈ spans source.toList)
    (hr : s.rule = .other) :
    ∃ t ∈ tokensOf source, t.category = .illegalChar ∧ t.lexeme = some (String.ofList s.text) := by
  have hreading := Lexer.reading_tokensFrom .start (spans source.toList)
  have hmem : (Category.illegalChar, some (String.ofList s.text)) ∈
      (tokensOf source).map Token.reading := by
    rw [tokensOf, hreading]
    exact List.mem_append_left _ (List.mem_filterMap.mpr ⟨s, hs, by rw [Span.reading?, hr]⟩)
  obtain ⟨t, ht, hsays⟩ := List.mem_map.mp hmem
  exact ⟨t, ht, congrArg Prod.fst hsays, congrArg Prod.snd hsays⟩

theorem Respacing.reading {source text : String} (h : Respacing source text)
    (hquote : ∀ t ∈ tokensOf source, t.category = .illegalChar →
      t.lexeme ≠ some "'" ∧ t.lexeme ≠ some "\"") :
    (tokensOf text).map Token.reading = (tokensOf source).map Token.reading := by
  obtain ⟨blanks, cs, hblanks, htext, hrespaced⟩ := h
  have hsplit : spans source.toList = (spans source.toList).takeWhile Span.isTrivia ++
      (spans source.toList).dropWhile Span.isTrivia := List.takeWhile_append_dropWhile.symm
  obtain ⟨rest, hrest⟩ := Lexer.exists_of_spans_eq_append hsplit
  have hspan : ∀ s ∈ (spans source.toList).dropWhile Span.isTrivia, s.rule = .other →
      s.text ≠ ['\''] ∧ s.text ≠ ['"'] := by
    intro s hs hr
    have hmem := (List.dropWhile_suffix _).subset hs
    obtain ⟨t, ht, hillegal, hlexeme⟩ := exists_illegalChar_of_mem_spans hmem hr
    obtain ⟨hchar, hstring⟩ := hquote t ht hillegal
    rw [hlexeme] at hchar hstring
    constructor
    · intro htext
      exact hchar (by rw [htext])
    · intro htext
      exact hstring (by rw [htext])
  have hsame : (spans text.toList).filterMap Span.reading? =
      (spans source.toList).filterMap Span.reading? := by
    rw [htext, Lexer.filterMap_reading?_spans_blank hblanks, hrespaced.reading hrest hspan]
    conv_rhs => rw [hsplit, List.filterMap_append]
    rw [Lexer.filterMap_reading?_trivia fun s hs => List.mem_takeWhile_imp hs, List.nil_append]
  rw [tokensOf, tokensOf, Lexer.reading_tokensFrom, Lexer.reading_tokensFrom, hsame]

/-- **A respaced text has the same tokens**, their positions apart, **and the same outcome**, the position
of the token found apart, as long as no quote stands for itself in the source. -/
theorem checkSource_respaced {limits : Limits} {p : Lexer.Preferences} {source text : String}
    {j : Log.Journal} (h : Respacing source text)
    (hquote : ∀ t ∈ (collectTokens limits p source j).1.toList, t.category = .illegalChar →
      t.lexeme ≠ some "'" ∧ t.lexeme ≠ some "\"") (q : Lexer.Preferences) (j' : Log.Journal) :
    (collectTokens limits q text j').1.toList.map Token.reading =
        (collectTokens limits p source j).1.toList.map Token.reading ∧
      Outcome.mapFound Token.unplaced (checkSource limits q text j').1 =
        Outcome.mapFound Token.unplaced (checkSource limits p source j).1 := by
  rw [toList_collectTokens] at hquote
  have hreading := h.reading hquote
  rw [toList_collectTokens, toList_collectTokens, outcome_checkSource, outcome_checkSource]
  exact ⟨hreading, Parser.program_of_reading_eq _ hreading⟩

/-- In `f(*c*)=12ab(*` a comment stands behind the name, and the last bracket and star start none.  White
space can take the place of the comment, and can be put between the tokens. -/
theorem checkSource_respaced_of_open_comment :
    let limits := Profile.development.limits
    let p : Lexer.Preferences := ⟨true, false⟩
    let j := Log.Journal.empty ⟨.info, true, 4096⟩
    Respacing "f(*c*)=12ab(*" " f\n= 12\tab(* " ∧
      (∀ t ∈ (collectTokens limits p "f(*c*)=12ab(*" j).1.toList, t.category = .illegalChar →
        t.lexeme ≠ some "'" ∧ t.lexeme ≠ some "\"") ∧
      (collectTokens limits p " f\n= 12\tab(* " j).1.toList.map Token.reading =
        (collectTokens limits p "f(*c*)=12ab(*" j).1.toList.map Token.reading ∧
      Outcome.mapFound Token.unplaced (checkSource limits p " f\n= 12\tab(* " j).1 =
        .error (.unexpectedToken (.category .openParen) ⟨some "=", .assign, .start⟩) := by
  intro limits p j
  have hspans : (spans "f(*c*)=12ab(*".toList).dropWhile Span.isTrivia =
      [⟨.word, ['f']⟩, ⟨.blockComment, "(*c*)".toList⟩, ⟨.symbol '=' [] .assign, ['=']⟩,
        ⟨.intLiteral, ['1', '2']⟩, ⟨.word, ['a', 'b']⟩, ⟨.symbol '(' [] .openParen, ['(']⟩,
        ⟨.symbol '*' [] .mul, ['*']⟩] := by decide +kernel
  have h : Respacing "f(*c*)=12ab(*" " f\n= 12\tab(* " := by
    refine ⟨[' '], "f\n= 12\tab(* ".toList, by decide, rfl, ?_⟩
    rw [hspans]
    refine .cons [] (by decide) rfl (@Respaced.token [⟨.blockComment, "(*c*)".toList⟩] _ _ ['\n'] _
      (by decide) (by decide) (by simp) rfl ?_)
    refine .cons [' '] (by decide) rfl (.cons ['\t'] (by decide) rfl ?_)
    exact .cons [] (by decide) rfl (.cons [] (by decide) rfl (.done (by simp) (by decide)))
  have hquote : ∀ t ∈ (collectTokens limits p "f(*c*)=12ab(*" j).1.toList,
      t.category = .illegalChar → t.lexeme ≠ some "'" ∧ t.lexeme ≠ some "\"" := by
    rw [toList_collectTokens]
    decide +kernel
  obtain ⟨htokens, houtcome⟩ := checkSource_respaced h hquote p j
  refine ⟨h, hquote, htokens, ?_⟩
  rw [houtcome, outcome_checkSource]
  decide +kernel

end Drac
