import Drac.Proofs.Expectation
import Drac.Proofs.NestingLimit

/-!
# What is found at the limit of nesting

The limit is tested where a level starts, before the next token is looked at.  So an error about nesting
says that a level can start behind the tokens that have been passed, and nothing about the token that was
found.  If an expression or a block can start with this token, the token goes on from there and every
limit that is large enough lets it pass.  If not, then every such limit leads to another error, which is
that the token does not fit.

## Main definitions

* `Opening`, `openings` — the phrases that open a level, with what they start with.

## Main results

* `Reaches.exists_opening` — where the limit is in the way, one of them is pending in front.
* `settle_opening` — with a level to spare it passes just the tokens that it starts with.
* `Parser.program_maxNestingDepth` — **what an error about nesting says about the token found.**
-/

namespace Drac.Syntax

open Category

/-! ### Phrases that open a level -/

/-- A phrase that opens a level. -/
structure Opening where
  /-- The phrase. -/
  phrase : Phrase
  /-- What it starts with. -/
  first : CategorySet
  /-- What is said to have fitted where it starts with something else. -/
  expected : Expected

/-- The phrases that open a level: an expression and a block. -/
def openings : List Opening :=
  [⟨.expression, First.expression, .oneOf First.primary⟩,
    ⟨.block, .ofList [openBrace], .category openBrace⟩]

/-- A level starts in front of a form or not at all, and then it is the form of a phrase that opens one. -/
theorem enter_of_mem_bodies {n : Phrase} {body : List Symbol} (h : body ∈ n.production.bodies) :
    .enter ∉ body ∨ .enter ∉ body.tail ∧ ∃ o ∈ openings, n = o.phrase := by
  have key : ∀ body ∈ n.production.bodies,
      .enter ∉ body ∨ .enter ∉ body.tail ∧ ∃ o ∈ openings, n = o.phrase := by
    cases n <;> decide
  exact key body h

/-- Before a token is passed a level starts only in front, where a phrase that opens one was pending. -/
theorem Unfolds.enter {limit : ℕ} {c : Category} {s t : Stage} (h : Unfolds limit c s t)
    (hs : .enter ∉ s.pending) : .enter ∉ t.pending.tail ∧
      (t.pending.head? = some .enter →
        ∃ o ∈ openings, ∃ k, Unfolds limit c s ⟨t.depth, .phrase o.phrase :: k⟩) := by
  have hnone {k : List Symbol} {P : Prop} (hk : .enter ∉ k) :
      .enter ∉ k.tail ∧ (k.head? = some .enter → P) :=
    ⟨fun hmem => hk (List.mem_of_mem_tail hmem), fun hhead => absurd (List.mem_of_mem_head? hhead) hk⟩
  induction h with
  | refl => exact hnone hs
  | tail hunfolds hmove ih =>
    obtain ⟨hk, -⟩ := ih
    cases hmove with
    | enter | leave | atEnd => exact hnone hk
    | @predict d n k body hbody =>
      rcases enter_of_mem_bodies (Production.mem_bodies_of_predict hbody) with
        hnot | ⟨htail, o, ho, rfl⟩
      · exact hnone fun hmem => (List.mem_append.mp hmem).elim hnot hk
      · refine ⟨fun hmem => ?_, fun _ => ⟨o, ho, k, hunfolds⟩⟩
        cases body with
        | nil => exact hk (List.mem_of_mem_tail hmem)
        | cons a body => exact (List.mem_append.mp hmem).elim htail hk

namespace Reaches

variable {limit : ℕ} {p : List Category}

/-- Between two tokens no level is about to start. -/
theorem enter_notMem {s t : Stage} (h : Reaches limit s p t) (hs : .enter ∉ s.pending) :
    .enter ∉ t.pending := by
  induction h with
  | refl => exact hs
  | step hstep _ ih =>
    obtain ⟨a, hu, -, -⟩ := exists_of_settle_shift hstep
    exact ih (hu.enter hs).1

/-- Where the limit is in the way, a phrase that opens a level is pending in front, and fewer levels are
open than tokens have been passed. -/
theorem exists_opening {t : Stage} {c : Category} {d : ℕ} {rest : List Symbol}
    (h : Reaches limit .start p t)
    (hr : settle limit c t.depth t.pending = .reject .tooDeep d rest) :
    ∃ o ∈ openings, ∃ k,
      Unfolds limit c t ⟨d, .phrase o.phrase :: k⟩ ∧ limit ≤ d ∧ d < p.length := by
  obtain ⟨k, hu, hd⟩ := exists_of_settle_tooDeep hr
  obtain ⟨o, ho, k', hopening⟩ := (hu.enter (h.enter_notMem (by decide))).2 rfl
  refine ⟨o, ho, k', hopening, hd, ?_⟩
  have hpassed := h.depth_add_opens_le Stage.shallow_start
  have hmoves : d + opens (.enter :: k) ≤ t.depth + opens t.pending := hu.depth_add_opens_le
  have hstart : Stage.start.depth + opens Stage.start.pending = 0 := by decide
  rw [opens_enter] at hmoves
  omega

end Reaches

/-! ### Levels to spare -/

/-- A form that starts with the next token passes it. -/
theorem settle_of_reads {limit d : ℕ} {c : Category} {n : Phrase} {a : Symbol} {more k : List Symbol}
    (hbody : n.production.predict c = .ok (a :: more)) (ha : a.reads c = true) (hc : c ≠ eof) :
    settle limit c d (.phrase n :: k) = .shift d (more ++ k) :=
  (settle_phrase hbody).trans (Decides.settle_eq (t := ⟨d, a :: (more ++ k)⟩) (.shift ha hc))

/-- A phrase passes just the tokens of a set, and where it finds another one it says what is expected. -/
def StartsWith (n : Phrase) (first : CategorySet) (expected : Expected) : Prop :=
  ∀ limit d c k,
    (first.contains c = true → ∃ d' k', settle limit c d (.phrase n :: k) = .shift d' k') ∧
      (first.contains c = false →
        ∃ d' k', settle limit c d (.phrase n :: k) = .reject (.expected expected) d' k')

/-- A phrase with a single form starts with what the phrase in front of the form starts with. -/
theorem StartsWith.always {m n : Phrase} {rest : List Symbol} {first : CategorySet} {expected : Expected}
    (h : StartsWith m first expected) (hn : n.production = .always (.phrase m :: rest)) :
    StartsWith n first expected := by
  intro limit d c k
  have hbody : n.production.predict c = .ok (.phrase m :: rest) := by
    rw [hn]
    rfl
  rw [settle_phrase hbody]
  exact h limit d c (rest ++ k)

theorem startsWith_primary : StartsWith .primary First.primary (.oneOf First.primary) := by
  have key : ∀ c ∈ Category.all,
      (First.primary.contains c = true → c ≠ eof ∧
        ∃ body ∈ (Phrase.primary.production.predict c).toOption,
          ∃ a ∈ body.head?, a.reads c = true) ∧
      (First.primary.contains c = false →
        Phrase.primary.production.predict c = .error First.primary) := by
    decide
  intro limit d c k
  obtain ⟨hfits, hother⟩ := key c (Category.mem_all c)
  refine ⟨fun hc => ?_, fun hc => ⟨d, _, settle_phrase_of_error (hother hc)⟩⟩
  obtain ⟨hne, body, hbody, a, hhead, ha⟩ := hfits hc
  obtain ⟨more, rfl⟩ := List.head?_eq_some_iff.mp hhead
  have hpredict : Phrase.primary.production.predict c = .ok (a :: more) := by
    cases hp : Phrase.primary.production.predict c with
    | error e =>
      rw [hp] at hbody
      cases hbody
    | ok body =>
      rw [hp] at hbody
      cases hbody
      rfl
  exact ⟨d, more ++ k, settle_of_reads hpredict ha hne⟩

/-- In front of an operand any signs are passed as well. -/
theorem startsWith_signed : StartsWith .signed First.expression (.oneOf First.primary) := by
  intro limit d c k
  by_cases hsign : First.sign.contains c = true
  · have hbody : Phrase.signed.production.predict c = .ok [.oneOf First.sign, .phrase .signed] := by
      simp [Phrase.production, Production.predict, hsign]
    have hfirst : First.expression.contains c = true := CategorySet.mem_union.mpr (.inl hsign)
    have hne : c ≠ eof := by
      rintro rfl
      exact absurd hsign (by decide)
    rw [hfirst]
    exact ⟨fun _ => ⟨d, _, settle_of_reads hbody hsign hne⟩, fun h => by cases h⟩
  · have hbody : Phrase.signed.production.predict c = .ok [.phrase .primary] := by
      simp [Phrase.production, Production.predict, hsign]
    have hfirst : First.expression.contains c = First.primary.contains c := by
      rw [Bool.eq_iff_iff]
      exact CategorySet.mem_union.trans (or_iff_right hsign)
    rw [settle_phrase hbody, hfirst]
    exact startsWith_primary limit d c k

/-- Operators stand behind the operands. -/
theorem startsWith_disjunction : StartsWith .disjunction First.expression (.oneOf First.primary) :=
  have product : StartsWith .product First.expression (.oneOf First.primary) := startsWith_signed.always rfl
  have sum : StartsWith .sum First.expression (.oneOf First.primary) := product.always rfl
  have relation : StartsWith .relation First.expression (.oneOf First.primary) := sum.always rfl
  have comparison : StartsWith .comparison First.expression (.oneOf First.primary) := relation.always rfl
  have conjunction : StartsWith .conjunction First.expression (.oneOf First.primary) := comparison.always rfl
  conjunction.always rfl

/-- With a level to spare a phrase that opens one passes just the tokens that it starts with. -/
theorem settle_opening {o : Opening} (ho : o ∈ openings) {limit d : ℕ} (hd : d < limit) (c : Category)
    (k : List Symbol) :
    (o.first.contains c = true →
      ∃ d' k', settle limit c d (.phrase o.phrase :: k) = .shift d' k') ∧
    (o.first.contains c = false →
      ∃ d' k', settle limit c d (.phrase o.phrase :: k) = .reject (.expected o.expected) d' k') := by
  have henter (rest : List Symbol) : settle limit c d (.enter :: rest) = settle limit c (d + 1) rest := by
    rw [settle, if_neg (Nat.not_le.mpr hd)]
  rcases List.mem_cons.mp ho with rfl | ho
  · have hbody : Phrase.expression.production.predict c =
        .ok [.enter, .phrase .disjunction, .leave] := rfl
    rw [settle_phrase hbody, List.cons_append, henter]
    exact startsWith_disjunction limit (d + 1) c (.leave :: k)
  · obtain rfl := List.mem_singleton.mp ho
    have hbody : Phrase.block.production.predict c =
        .ok [.enter, .token openBrace, .phrase .statements, .token closeBrace, .leave] := rfl
    rw [settle_phrase hbody, List.cons_append, henter]
    refine ⟨fun hc => ?_, fun hc => ?_⟩
    · obtain rfl : c = openBrace := by simpa using CategorySet.mem_ofList.mp hc
      exact ⟨d + 1, _, Decides.settle_eq (t := ⟨d + 1, _⟩) (.shift rfl (by decide))⟩
    · have hne : openBrace ≠ c := by
        rintro rfl
        exact absurd hc (by decide)
      exact ⟨d + 1, _, Decides.settle_eq (t := ⟨d + 1, _⟩) (.refuse (if_neg hne))⟩

/-! ### What is found where a level starts -/

namespace Reaches

variable {limit d : ℕ} {t : Stage} {p : List Category} {c : Category} {o : Opening} {k : List Symbol}

/-- Where a phrase that opens a level is pending in front, whatever it starts with goes on from there. -/
theorem viable_of_opening (h : Reaches limit .start p t) (ho : o ∈ openings)
    (hu : Unfolds limit c t ⟨d, .phrase o.phrase :: k⟩) {b : Category} (hb : o.first.contains b = true) :
    Viable (p ++ [b]) := by
  have hwf : WellFormed (.ofList [eof]) (.phrase o.phrase :: k) :=
    hu.wellFormed (h.wellFormed Stage.wellFormed_start)
  obtain ⟨d', k', hshift⟩ := (settle_opening ho (Nat.lt_succ_self d) b k).1 hb
  obtain ⟨limit', w, hw⟩ := exists_mem_spelled (hwf.settle_shift hshift).exists_mem_of_oneOf d'
  -- under a limit that is not below any of these, the word follows the token
  let large := max limit (max (d + 1) limit')
  have hspare : d + 1 ≤ large := (le_max_left ..).trans (le_max_right ..)
  have hword : limit' ≤ large := (le_max_right ..).trans (le_max_right ..)
  have hlarge : settle large b d (.phrase o.phrase :: k) = .shift d' k' := by
    rw [settle_mono hspare (by simp [hshift]), hshift]
  have hfollows : Follows p b :=
    h.follows hu (le_max_left ..) (mem_spelled_of_settle_shift hlarge (spelled_mono hword hw))
  rwa [Follows, if_neg (ne_eof_of_settle_shift hshift)] at hfollows

/-- Under a limit with a level to spare the phrase decides about the token. -/
theorem settle_of_opening (hu : Unfolds limit c t ⟨d, .phrase o.phrase :: k⟩) (ho : o ∈ openings)
    {limit' : ℕ} (hl : limit ≤ limit') (hd : d < limit') :
    (o.first.contains c = true → ∃ d' k', settle limit' c t.depth t.pending = .shift d' k') ∧
      (o.first.contains c = false →
        ∃ d' k', settle limit' c t.depth t.pending = .reject (.expected o.expected) d' k') := by
  rw [(hu.mono hl).settle_eq]
  exact settle_opening ho hd c k

end Reaches

namespace Stops

variable {limit k : ℕ} {w : List Category} {c : Category}

/-- A token that does not fit goes on from nothing that has been passed. -/
theorem not_viable {e : Expected} (h : Stops limit w k (.error (.expected e)))
    (hc : w[k]?.getD eof = c) : ¬ Viable (w.take k ++ [c]) := by
  obtain ⟨t, ht, hj⟩ := h.judged
  rw [hc] at hj
  obtain ⟨d, rest, hr⟩ := Verdict.exists_eq_reject_of_judgement? hj
  exact ht.not_viable_of_reject hr

/-- A run that can pass the next token ends behind it. -/
theorem lt_of_settle_shift {k' d : ℕ} {j : Judgement} {t : Stage} {rest : List Symbol}
    (h : Stops limit w k' j) (ht : Reaches limit .start (w.take k) t) (hc : w[k]?.getD eof = c)
    (hshift : settle limit c t.depth t.pending = .shift d rest) : k < k' := by
  have hlt : k < w.length := by
    by_contra hge
    rw [List.getElem?_eq_none (Nat.not_lt.mp hge)] at hc
    exact ne_eof_of_settle_shift hshift hc.symm
  have hnext : Reaches limit .start (w.take (k + 1)) ⟨d, rest⟩ := by
    rw [List.getElem?_eq_getElem hlt, Option.getD_some] at hc
    rw [List.take_succ_eq_append_getElem hlt, hc]
    exact ht.append (.step (t := ⟨d, rest⟩) hshift (.refl _))
  by_contra hle
  exact h.not_reaches (Nat.lt_succ_of_le (Nat.not_lt.mp hle)) hlt _ hnext

/-- Where the limit stops a run, a phrase that opens a level is pending.  Every limit that is not below the
number of tokens passed leaves it to this phrase whether the token fits. -/
theorem exists_opening (h : Stops limit w k (.error .tooDeep)) (hc : w[k]?.getD eof = c) :
    ∃ o ∈ openings, (∀ b, o.first.contains b = true → Viable (w.take k ++ [b])) ∧
      ∀ limit' ≥ k, (o.first.contains c = true → ∀ k' j, Stops limit' w k' j → k < k') ∧
        (o.first.contains c = false → Stops limit' w k (.error (.expected o.expected))) := by
  obtain ⟨t, ht, hj⟩ := h.judged
  rw [hc] at hj
  obtain ⟨d, k', hr⟩ := Verdict.exists_eq_reject_of_judgement? hj
  obtain ⟨o, ho, rest, hu, hlimit, hd⟩ := ht.exists_opening hr
  rw [List.length_take_of_le h.le_length] at hd
  refine ⟨o, ho, fun b hb => ht.viable_of_opening ho hu hb, fun limit' hl => ?_⟩
  have hlarger : limit ≤ limit' := by omega
  obtain ⟨hfits, hother⟩ := Reaches.settle_of_opening hu ho hlarger (by omega)
  refine ⟨fun hfirst k' j hstops => ?_, fun hfirst => ?_⟩
  · obtain ⟨d', rest', hshift⟩ := hfits hfirst
    exact hstops.lt_of_settle_shift (ht.mono hlarger) hc hshift
  · refine ⟨h.le_length, t, ht.mono hlarger, ?_⟩
    obtain ⟨d', rest', hreject⟩ := hother hfirst
    rw [hc, hreject]
    rfl

end Stops

namespace Parser

/-- **What an error about nesting says about the token found.**  A level can start behind the tokens that
have been passed: they begin a program, and so they do with each token that the level can start with.  With
the token found they begin one just if it is one of these.  Then every limit that is not below the number
of tokens passed lets it pass, and otherwise every such limit leads to the error that it does not fit, after
the same tokens. -/
theorem program_maxNestingDepth {limit n : ℕ} {ts : List Token} {found : Token}
    (h : (start limit ts).program.1 = .error (.maxNestingDepth n found)) :
    ∃ k ≤ ts.length, (start limit ts).program.2.consumed = k ∧ n = limit ∧ found = tokenAt ts k ∧
      Viable ((ts.take k).map Token.category) ∧
      ∃ o ∈ openings,
        (∀ c, o.first.contains c = true → Viable ((ts.take k).map Token.category ++ [c])) ∧
        (Viable ((ts.take k).map Token.category ++ [found.category]) ↔
          o.first.contains found.category = true) ∧
        ∀ limit' ≥ k,
          (o.first.contains found.category = true → k < (start limit' ts).program.2.consumed) ∧
          (o.first.contains found.category = false → (start limit' ts).program.2.consumed = k ∧
            (start limit' ts).program.1 = .error (.unexpectedToken o.expected found)) := by
  obtain ⟨judgement, hstops, houtcome⟩ := exists_stops limit ts
  rw [houtcome] at h
  obtain ⟨rfl, rfl, rfl⟩ := eq_of_maxNestingDepth h
  generalize (start n ts).program.2.consumed = k at hstops
  have hpassed := take_word hstops.le_length
  have hcategory := category_tokenAt hstops.le_length
  have hlength : k ≤ ts.length := by
    have hle := hstops.le_length
    rw [word, List.length_map] at hle
    exact hle.trans (List.takeWhile_prefix _).length_le
  have hviable : Viable ((word ts).take k) := by
    obtain ⟨t, ht, -⟩ := hstops.judged
    exact ht.viable
  obtain ⟨o, ho, hfirst, hlarge⟩ := hstops.exists_opening hcategory.symm
  refine ⟨k, hlength, rfl, rfl, rfl, ?_⟩
  rw [← hpassed]
  refine ⟨hviable, o, ho, hfirst, ⟨?_, hfirst _⟩, ?_⟩
  · intro hfound
    by_contra hnot
    have hrefused := (hlarge k le_rfl).2 (by simpa using hnot)
    exact hrefused.not_viable hcategory.symm hfound
  · intro limit' hl
    obtain ⟨hfits, hother⟩ := hlarge limit' hl
    constructor
    · intro hstarts
      obtain ⟨judgement, hstops', -⟩ := exists_stops limit' ts
      exact hfits hstarts _ _ hstops'
    · intro hnot
      exact program_of_stops (hother hnot)

/-- In `f ( ) { x = ( ( 1 ) ) ; }` under a limit of two levels the third expression is refused at the number,
which can start it, and every limit of eight levels or more lets the number pass. -/
theorem program_maxNestingDepth_of_parentheses :
    let ts : List Token :=
      [identifier, openParen, closeParen, openBrace, identifier, assign, openParen, openParen,
        intLiteral, closeParen, closeParen, semicolon, closeBrace].map fun c => ⟨none, c, .start⟩
    (start 2 ts).program.1 = .error (.maxNestingDepth 2 (tokenAt ts 8)) ∧
      Viable ((ts.take 8).map Token.category ++ [intLiteral]) ∧
      ∀ limit ≥ 8, 8 < (start limit ts).program.2.consumed := by
  intro ts
  have hdeep : (start 2 ts).program.1 = .error (.maxNestingDepth 2 (tokenAt ts 8)) := by
    decide +kernel
  obtain ⟨k, -, hk, -, -, -, o, -, -, hiff, hlarge⟩ := program_maxNestingDepth hdeep
  obtain rfl : 8 = k := hk ▸ by decide +kernel
  have hstarts : o.first.contains (tokenAt ts 8).category = true := by
    by_contra hnot
    obtain ⟨hconsumed, -⟩ := (hlarge 8 le_rfl).2 (by simpa using hnot)
    have hall : (start 8 ts).program.2.consumed = 13 := by decide +kernel
    omega
  exact ⟨hdeep, hiff.mpr hstarts, fun limit hl => (hlarge limit hl).1 hstarts⟩

/-- In `f ( ) { x = ( ( ; }` under a limit of two levels the limit is reported at the semicolon, with which
the tokens before it begin no program.  Under a limit of three levels it is reported that an operand is
missing there. -/
theorem program_maxNestingDepth_of_missing_operand :
    let ts : List Token :=
      [identifier, openParen, closeParen, openBrace, identifier, assign, openParen, openParen,
        semicolon, closeBrace].map fun c => ⟨none, c, .start⟩
    (start 2 ts).program.1 = .error (.maxNestingDepth 2 ⟨none, semicolon, .start⟩) ∧
      (start 2 ts).program.2.consumed = 8 ∧
      ¬ Viable ((ts.take 8).map Token.category ++ [semicolon]) ∧
      (start 3 ts).program.1 =
        .error (.unexpectedToken (.oneOf First.primary) ⟨none, semicolon, .start⟩) := by
  intro ts
  have hdeep : (start 2 ts).program.1 = .error (.maxNestingDepth 2 ⟨none, semicolon, .start⟩) := by
    decide +kernel
  have hpassed : (start 2 ts).program.2.consumed = 8 := by decide +kernel
  have hmissing : (start 3 ts).program.1 =
      .error (.unexpectedToken (.oneOf First.primary) ⟨none, semicolon, .start⟩) := by
    decide +kernel
  refine ⟨hdeep, hpassed, fun hviable => ?_, hmissing⟩
  obtain ⟨judgement, hstops, houtcome⟩ := exists_stops 2 ts
  rw [houtcome] at hdeep
  obtain ⟨rfl, -, -⟩ := eq_of_maxNestingDepth hdeep
  rw [hpassed] at hstops
  obtain ⟨o, ho, -, hlarge⟩ := hstops.exists_opening rfl
  -- neither an expression nor a block starts with a semicolon
  have hnot : ∀ o ∈ openings, o.first.contains semicolon = false := by decide
  exact ((hlarge 8 le_rfl).2 (hnot o ho)).not_viable rfl hviable

end Parser

end Drac.Syntax
