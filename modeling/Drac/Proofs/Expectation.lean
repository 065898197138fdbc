import Drac.Proofs.Runs
import Drac.Proofs.ViablePrefix

/-!
# What would have fitted

An error says what would have fitted.  This is right, and it never names what was found: each category
that it names continues some program from there, or ends one if it is the end of the input.  There is
one exception.  Behind the name at the start of a statement the error names what a statement starts with,
although only a sign of assignment or an opening bracket can follow.

The sets in the errors are seen from the symbols that can be pending.  Most symbols that ask for one of
several tokens are put in front only after a look at the next token, so they never refuse it, and the
only ones that do refuse a token are single tokens, operands, and the rest of a statement that starts
with a name.

## Main definitions

* `Follows p c` — the token `c` goes on from `p`, or the program may end there.
* `BeginsStatement q c` — behind `q` the token `c` is the first one of a statement.
* `Symbol.guarded`, `Checked` — symbols that never refuse a token, and where they may be pending.

## Main results

* `Reaches.eq_of_refusal` — what can refuse a token.
* `Reaches.follows_of_refusal` — what an error names goes on from there.
* `Reaches.beginsStatement` — the rest of a statement that starts with a name is pending behind this name.
* `Parser.program_expected` — **an error names what would have fitted**, with one exception.
-/

namespace Drac.Syntax

open Category

/-! ### Going on -/

/-- The token `c` goes on from `p` towards a program; if it is the end of the input, `p` is one. -/
def Follows (p : List Category) (c : Category) : Prop :=
  if c = eof then ∃ d, Sentence d p else Viable (p ++ [c])

/-- Behind `q` the token `c` is the first one of a statement: in every program that goes on like this a
statement starts with it, and any other statement could stand there instead. -/
def BeginsStatement (q : List Category) (c : Category) : Prop :=
  ∀ d w, Sentence d (q ++ c :: w) → ∃ v r, w = v ++ r ∧
    (∃ d', Derives d' Nonterminal.statement (c :: v)) ∧
    ∀ d' u, Derives d' Nonterminal.statement u → ∃ d'', Sentence d'' (q ++ u ++ r)

/-- Behind the end of the input nothing stands in a program. -/
theorem eq_nil_of_derives_program {d : ℕ} {p w : List Category}
    (h : Derives d Nonterminal.program (p ++ eof :: w)) : w = [] := by
  obtain ⟨u, hu, hnot⟩ := eq_append_eof_of_derives_program h
  rcases List.eq_nil_or_concat w with hw | ⟨v, a, rfl⟩
  · exact hw
  · rw [List.concat_eq_append, ← List.cons_append, ← List.append_assoc] at hu
    obtain ⟨rfl, -⟩ := List.append_inj' hu rfl
    exact absurd (List.mem_append_right p List.mem_cons_self) hnot

/-- What stands next in a program goes on from what stands before it. -/
theorem follows_of_derives_program {d : ℕ} {p w : List Category} {c : Category}
    (h : Derives d Nonterminal.program (p ++ c :: w)) : Follows p c := by
  rw [Follows]
  split
  · next hc =>
    subst hc
    obtain rfl := eq_nil_of_derives_program h
    exact ⟨d, h⟩
  · next hc =>
    obtain ⟨u, hu, -⟩ := eq_append_eof_of_derives_program h
    rcases List.eq_nil_or_concat w with rfl | ⟨v, a, rfl⟩
    · obtain ⟨-, hlast⟩ := List.append_inj' hu rfl
      exact absurd (List.cons.inj hlast).1 hc
    · rw [List.concat_eq_append, ← List.cons_append, ← List.append_assoc] at hu
      obtain ⟨-, hlast⟩ := List.append_inj' hu rfl
      obtain rfl : a = eof := (List.cons.inj hlast).1
      refine ⟨d, v, ?_⟩
      simpa [Sentence] using h

/-! ### Symbols that never refuse a token -/

/-- Whether a symbol is put in front only after a look at the next token. -/
def Symbol.guarded : Symbol → Bool
  | oneOf _ | phrase .definition | phrase .statement => true
  | _ => false

/-- Guarded symbols are pending in front only, and there they do not refuse the token `c`. -/
structure Checked (c : Category) (k : List Symbol) : Prop where
  tail : ∀ a ∈ k.tail, a.guarded = false
  head : ∀ a ∈ k.head?, a.guarded = true → a.refusal? c = none

theorem Checked.of_not_guarded {c : Category} {k : List Symbol}
    (h : ∀ a ∈ k, a.guarded = false) : Checked c k where
  tail a ha := h a (List.mem_of_mem_tail ha)
  head a ha hguarded := by
    rw [h a (List.mem_of_mem_head? ha)] at hguarded
    cases hguarded

/-- In the form that a token predicts, guarded symbols stand in front only, and they do not refuse the
token. -/
theorem checked_of_predict {n : Phrase} {c : Category} {body : List Symbol}
    (h : n.production.predict c = .ok body) : Checked c body := by
  have key : ∀ c ∈ Category.all, ∀ body ∈ (n.production.predict c).toOption,
      (∀ a ∈ body.tail, a.guarded = false) ∧
        ∀ a ∈ body.head?, a.guarded = true → a.refusal? c = none := by
    cases n <;> decide +kernel
  obtain ⟨htail, hhead⟩ := key c (Category.mem_all c) body (by rw [h]; rfl)
  exact ⟨htail, hhead⟩

theorem Checked.append {c : Category} {body k : List Symbol} (h : Checked c body)
    (hk : ∀ a ∈ k, a.guarded = false) : Checked c (body ++ k) := by
  cases body with
  | nil => exact .of_not_guarded hk
  | cons b body =>
    refine ⟨fun a ha => ?_, h.head⟩
    exact (List.mem_append.mp ha).elim (h.tail a) (hk a)

theorem Checked.unfolds {limit : ℕ} {c : Category} {s t : Stage} (h : Unfolds limit c s t)
    (hs : Checked c s.pending) : Checked c t.pending := by
  induction h with
  | refl => exact hs
  | tail _ hmove ih =>
    cases hmove with
    | enter | leave | atEnd => exact .of_not_guarded ih.tail
    | predict hbody => exact (checked_of_predict hbody).append ih.tail

/-- Between two tokens no guarded symbol is pending. -/
theorem Reaches.not_guarded {limit : ℕ} {s t : Stage} {p : List Category}
    (h : Reaches limit s p t) (hs : ∀ a ∈ s.pending, a.guarded = false) :
    ∀ a ∈ t.pending, a.guarded = false := by
  induction h with
  | refl => exact hs
  | step hstep _ ih =>
    obtain ⟨a, hu, -, -⟩ := exists_of_settle_shift hstep
    exact ih (Checked.unfolds hu (.of_not_guarded hs)).tail

/-- Apart from guarded ones two phrases refuse tokens: an operand, and the rest of a statement that starts
with a name. -/
theorem eq_of_refusal_phrase {n : Phrase} {c : Category} {e : Expected}
    (h : (Symbol.phrase n).refusal? c = some e) (hn : (Symbol.phrase n).guarded = false) :
    (n = .primary ∧ e = .oneOf First.primary ∧ First.primary.contains c = false) ∨
      (n = .afterName ∧ e = .oneOf First.statement ∧ c ≠ assign ∧ c ≠ openParen) := by
  have key : ∀ c ∈ Category.all, ∀ e ∈ (Symbol.phrase n).refusal? c,
      (Symbol.phrase n).guarded = false →
        (n = .primary ∧ e = .oneOf First.primary ∧ First.primary.contains c = false) ∨
          (n = .afterName ∧ e = .oneOf First.statement ∧ c ≠ assign ∧ c ≠ openParen) := by
    cases n <;> decide +kernel
  exact key c (Category.mem_all c) e h hn

/-- A token that is refused is refused by another token, by an operand, or by the rest of a statement that
starts with a name. -/
theorem Reaches.eq_of_refusal {limit : ℕ} {t : Stage} {p : List Category} {c : Category} {e : Expected}
    {d : ℕ} {rest : List Symbol} (h : Reaches limit .start p t)
    (hr : settle limit c t.depth t.pending = .reject (.expected e) d rest) :
    ∃ a k, Unfolds limit c t ⟨d, a :: k⟩ ∧
      ((∃ b, a = .token b ∧ b ≠ c ∧ e = .category b) ∨
        (a = .phrase .primary ∧ e = .oneOf First.primary ∧ First.primary.contains c = false) ∨
        (a = .phrase .afterName ∧ e = .oneOf First.statement ∧ c ≠ assign ∧ c ≠ openParen)) := by
  obtain ⟨a, k, hu, ha⟩ := exists_of_settle_expected hr
  have hchecked := Checked.unfolds hu (.of_not_guarded (h.not_guarded (by decide)))
  refine ⟨a, k, hu, ?_⟩
  -- what refuses the token is not guarded
  have hguarded : a.guarded = false := by
    by_contra hnot
    rw [hchecked.head a rfl (by simpa using hnot)] at ha
    cases ha
  rcases Symbol.eq_of_refusal? ha with htoken | ⟨s, rfl, -, -⟩ | ⟨n, s, rfl, -, -⟩
  · exact .inl htoken
  · cases hguarded
  · rcases eq_of_refusal_phrase ha hguarded with ⟨rfl, hset⟩ | ⟨rfl, hset⟩
    · exact .inr (.inl ⟨rfl, hset⟩)
    · exact .inr (.inr ⟨rfl, hset⟩)

/-! ### What an error names -/

/-- A token that a symbol asks for can be followed by what is pending behind the symbol. -/
theorem exists_mem_spelled_of_reads {after : CategorySet} {a : Symbol} {k : List Symbol} {b : Category}
    (ha : a.reads b = true) (hk : WellFormed after (a :: k)) (d limit : ℕ) :
    ∃ limit' ≥ limit, ∃ w, b :: w ∈ spelled limit' d (a :: k) := by
  obtain ⟨limit', w, hw⟩ := exists_mem_spelled
    (fun s hs => hk.exists_mem_of_oneOf s (List.mem_cons_of_mem a hs)) d
  have hw : w ∈ spelled (max limit limit') d k := spelled_mono (le_max_right ..) hw
  refine ⟨max limit limit', le_max_left .., w, ?_⟩
  rcases Symbol.eq_of_reads ha with rfl | ⟨s, rfl, hs⟩
  · exact mem_spelled_token.mpr ⟨w, hw, rfl⟩
  · exact mem_spelled_oneOf.mpr ⟨b, hs, w, hw, rfl⟩

/-- An operand can start with everything that an error about operands names. -/
theorem exists_mem_spelled_primary {after : CategorySet} {k : List Symbol} {b : Category}
    (hb : First.primary.contains b = true) (hk : WellFormed after (.phrase .primary :: k)) (d limit : ℕ) :
    ∃ limit' ≥ limit, ∃ w, b :: w ∈ spelled limit' d (.phrase .primary :: k) := by
  have key : ∀ b ∈ Category.all, First.primary.contains b = true →
      ∃ body ∈ Phrase.primary.production.bodies, ∃ a ∈ body.head?, a.reads b = true := by
    decide
  obtain ⟨body, hbody, a, hhead, ha⟩ := key b (Category.mem_all b) hb
  obtain ⟨more, rfl⟩ := List.head?_eq_some_iff.mp hhead
  have hmore : WellFormed after (a :: (more ++ k)) :=
    wellFormed_append.mpr ⟨(wellFormed_of_mem_bodies hbody).mono hk.1, hk.2⟩
  obtain ⟨limit', hl, w, hw⟩ := exists_mem_spelled_of_reads ha hmore d limit
  exact ⟨limit', hl, w, mem_spelled_phrase.mpr ⟨_, hbody, hw⟩⟩

namespace Reaches

variable {limit : ℕ} {t : Stage} {p : List Category} {c : Category}

/-- A token with which a word of a later stage starts goes on from what has been passed. -/
theorem follows (h : Reaches limit .start p t) {u : Stage} (hu : Unfolds limit c t u) {limit' : ℕ}
    (hl : limit ≤ limit') {b : Category} {w : List Category} (hw : b :: w ∈ u.words limit') :
    Follows p b := by
  obtain ⟨v, hv, hvw⟩ := hu.mem_words hl hw
  have hderives := Stage.mem_words_start.mp ((h.mono hl).mem_words hvw)
  cases v with
  | nil => exact follows_of_derives_program hderives
  | cons a v =>
    -- an end of the input that was matched would be followed by the token
    obtain rfl := (hv a List.mem_cons_self).1
    have hnil := eq_nil_of_derives_program hderives
    simp at hnil

/-- What an error names goes on from what has been passed, and it does not name what was found, unless
the rest of a statement that starts with a name was pending. -/
theorem follows_of_refusal (h : Reaches limit .start p t) {e : Expected} {d : ℕ} {rest : List Symbol}
    (hr : settle limit c t.depth t.pending = .reject (.expected e) d rest)
    (he : e ≠ .oneOf First.statement) :
    (∀ b, e.contains b = true → Follows p b) ∧ e.contains c = false := by
  obtain ⟨a, k, hu, hcases⟩ := h.eq_of_refusal hr
  have hwf : WellFormed (.ofList [eof]) (a :: k) := hu.wellFormed (h.wellFormed Stage.wellFormed_start)
  rcases hcases with ⟨b, rfl, hbc, rfl⟩ | ⟨rfl, rfl, hc⟩ | ⟨-, rfl, -⟩
  · refine ⟨fun b' hb' => ?_, by simpa [Expected.contains] using hbc⟩
    obtain rfl : b = b' := by simpa [Expected.contains] using hb'
    obtain ⟨limit', hl, w, hw⟩ :=
      exists_mem_spelled_of_reads (a := .token b) (b := b) (by simp [Symbol.reads]) hwf d limit
    exact h.follows hu hl hw
  · refine ⟨fun b hb => ?_, hc⟩
    obtain ⟨limit', hl, w, hw⟩ := exists_mem_spelled_primary hb hwf d limit
    exact h.follows hu hl hw
  · exact absurd rfl he

end Reaches

/-! ### Statements that start with a name -/

/-- The rest of a statement that starts with a name is a part of one form only. -/
theorem afterName_of_predict {n : Phrase} {c : Category} {body : List Symbol}
    (h : n.production.predict c = .ok body) : .phrase .afterName ∉ body ∨
      n = .statement ∧ c = identifier ∧ body = [.token identifier, .phrase .afterName] := by
  have key : ∀ c ∈ Category.all, ∀ body ∈ (n.production.predict c).toOption,
      .phrase .afterName ∉ body ∨
        n = .statement ∧ c = identifier ∧ body = [.token identifier, .phrase .afterName] := by
    cases n <;> decide +kernel
  exact key c (Category.mem_all c) body (by rw [h]; rfl)

/-- Before a token is passed the rest of a statement that starts with a name comes to be pending only
behind this name, where a statement was pending, and the name is the next token. -/
theorem Unfolds.afterName {limit : ℕ} {c : Category} {s t : Stage} (h : Unfolds limit c s t)
    (hs : .phrase .afterName ∉ s.pending.tail) :
    (.phrase .afterName ∉ t.pending.tail ∧ (t.pending.head? = some (.phrase .afterName) → t = s)) ∨
      ∃ k, t.pending = .token identifier :: .phrase .afterName :: k ∧ c = identifier ∧
        .phrase .afterName ∉ k ∧ Unfolds limit c s ⟨t.depth, .phrase .statement :: k⟩ := by
  have hnone {k : List Symbol} {u : Stage} (hk : .phrase .afterName ∉ k) :
      .phrase .afterName ∉ k.tail ∧ (k.head? = some (.phrase .afterName) → u = s) :=
    ⟨fun hmem => hk (List.mem_of_mem_tail hmem), fun hhead => absurd (List.mem_of_mem_head? hhead) hk⟩
  induction h with
  | refl => exact .inl ⟨hs, fun _ => rfl⟩
  | tail hunfolds hmove ih =>
    rcases ih with ⟨hk, -⟩ | ⟨k, hpending, -, -, -⟩
    · cases hmove with
      | enter | leave | atEnd => exact .inl (hnone hk)
      | @predict d n k body hbody =>
        rcases afterName_of_predict hbody with hnot | ⟨rfl, rfl, rfl⟩
        · exact .inl (hnone fun hmem => (List.mem_append.mp hmem).elim hnot hk)
        · exact .inr ⟨k, rfl, rfl, hk, hunfolds⟩
    · -- the name is the next token, so there is no further move
      cases hmove with
      | enter | leave | predict => cases hpending
      | atEnd ha _ =>
        cases hpending
        cases ha

namespace Reaches

variable {limit : ℕ} {p : List Category}

/-- Between two tokens the rest of a statement that starts with a name is pending in front only. -/
theorem afterName_notMem_tail {s t : Stage} (h : Reaches limit s p t)
    (hs : .phrase .afterName ∉ s.pending.tail) : .phrase .afterName ∉ t.pending.tail := by
  induction h with
  | refl => exact hs
  | step hstep _ ih =>
    obtain ⟨a, hu, -, -⟩ := exists_of_settle_shift hstep
    rcases hu.afterName hs with ⟨hnot, -⟩ | ⟨k, hpending, -, hk, -⟩
    · exact ih fun hmem => hnot (List.mem_of_mem_tail hmem)
    · obtain ⟨-, htail⟩ := List.cons.inj hpending
      rw [htail] at ih
      exact ih hk

/-- If the rest of a statement that starts with a name is pending, this name has just been passed, and
a statement was pending in front of it. -/
theorem exists_statement {t : Stage} (h : Reaches limit .start p t) {k : List Symbol}
    (hk : t.pending = .phrase .afterName :: k) : ∃ q s, p = q ++ [identifier] ∧
      Reaches limit .start q s ∧ Unfolds limit identifier s ⟨t.depth, .phrase .statement :: k⟩ := by
  rcases List.eq_nil_or_concat p with rfl | ⟨q, c, rfl⟩
  · cases h
    cases hk
  · rw [List.concat_eq_append, reaches_append_iff] at h
    obtain ⟨s, hs, hlast⟩ := h
    obtain ⟨a, hu, -, -⟩ := exists_of_settle_shift hlast.settle_of_singleton
    rw [hk] at hu
    rcases hu.afterName (hs.afterName_notMem_tail (by decide)) with
      ⟨hnot, -⟩ | ⟨k', hpending, rfl, -, hstatement⟩
    · exact absurd List.mem_cons_self hnot
    · cases hpending
      exact ⟨q, s, List.concat_eq_append, hs, hstatement⟩

/-- Where the rest of a statement that starts with a name is pending, this name begins a statement. -/
theorem beginsStatement {t : Stage} (h : Reaches limit .start p t) {k : List Symbol}
    (hk : t.pending = .phrase .afterName :: k) :
    ∃ q, p = q ++ [identifier] ∧ BeginsStatement q identifier := by
  obtain ⟨q, s, rfl, hs, hstatement⟩ := h.exists_statement hk
  refine ⟨q, rfl, fun d w hsentence => ?_⟩
  -- what follows the name consists of the rest of the statement and of what is pending behind it
  have hrest : w ++ [eof] ∈ t.words (max limit d) := by
    refine (h.mono (le_max_left ..)).mem_words_rest Stage.wellFormed_start ?_
    refine Stage.mem_words_start.mpr ?_
    simpa [Sentence] using hsentence.mono (le_max_right limit d)
  rw [Stage.words, hk] at hrest
  obtain ⟨v, r', hv, hr', heq⟩ := mem_spelled_phrase_iff_append.mp hrest
  obtain ⟨r, rfl, rfl⟩ : ∃ r, r' = r ++ [eof] ∧ w = v ++ r := by
    rcases List.eq_nil_or_concat r' with rfl | ⟨r, a, rfl⟩
    · rw [List.append_nil] at heq
      exact absurd (heq ▸ List.mem_append_right w List.mem_cons_self) (hv.notMem_eof rfl)
    · rw [List.concat_eq_append, ← List.append_assoc] at heq
      obtain ⟨hw, ha⟩ := List.append_inj' heq rfl
      exact ⟨r, by rw [List.concat_eq_append, ← ha], hw⟩
  refine ⟨v, r, rfl, ?_, fun d' u hu => ?_⟩
  · -- the name and the rest are a form of a statement
    have hform : identifier :: v ∈ spelled (max limit d) t.depth [.phrase .statement] := by
      refine mem_spelled_phrase.mpr ⟨[.token identifier, .phrase .afterName], by decide, ?_⟩
      refine mem_spelled_token.mpr ⟨v, mem_spelled_phrase_iff_append.mpr ⟨v, [], hv, rfl, ?_⟩, rfl⟩
      exact (List.append_nil v).symm
    obtain ⟨u, u', hu, hnil, heq⟩ := mem_spelled_phrase_iff_append.mp hform
    rw [mem_spelled_nil.mp hnil, List.append_nil] at heq
    exact ⟨_, heq ▸ hu⟩
  · -- any statement fits where the statement was pending
    let limit' := max (max limit d) (t.depth + d')
    have hword : u ++ (r ++ [eof]) ∈ spelled limit' t.depth (.phrase .statement :: k) := by
      refine mem_spelled_phrase_iff_append.mpr ⟨u, _, hu.mono (by omega), ?_, rfl⟩
      exact spelled_mono (le_max_left ..) hr'
    have hlimit : limit ≤ limit' := (le_max_left ..).trans (le_max_left ..)
    have hwords : u ++ (r ++ [eof]) ∈ s.words limit' :=
      hstatement.mem_words_of_ne (by decide) hlimit hword
    have hderives := Stage.mem_words_start.mp ((hs.mono hlimit).mem_words hwords)
    exact ⟨limit', by simpa [Sentence] using hderives⟩

/-- If the error names what a statement starts with, the last token passed is the name at the start of
one, and neither a sign of assignment nor an opening bracket was found. -/
theorem exists_name_of_refusal {t : Stage} {c : Category} {d : ℕ} {rest : List Symbol}
    (h : Reaches limit .start p t)
    (hr : settle limit c t.depth t.pending = .reject (.expected (.oneOf First.statement)) d rest) :
    ∃ q, p = q ++ [identifier] ∧ BeginsStatement q identifier ∧ c ≠ assign ∧ c ≠ openParen := by
  obtain ⟨a, k, hu, hcases⟩ := h.eq_of_refusal hr
  rcases hcases with ⟨b, -, -, hset⟩ | ⟨-, hset, -⟩ | ⟨rfl, -, hassign, hparen⟩
  · cases hset
  · exact absurd hset (by decide)
  · -- the rest of the statement was pending before any move
    have hk : t.pending = .phrase .afterName :: k := by
      rcases hu.afterName (h.afterName_notMem_tail (by decide)) with ⟨-, heq⟩ | ⟨k', hpending, -⟩
      · rw [← heq rfl]
      · cases hpending
    obtain ⟨q, hq, hbegins⟩ := h.beginsStatement hk
    exact ⟨q, hq, hbegins, hassign, hparen⟩

end Reaches

namespace Parser

/-- **An error names what would have fitted.**  Whatever it names goes on from the tokens that have been
passed, and it does not name the token that was found.  The one exception is the set of all that a
statement starts with: it is named behind the name at the start of a statement, if neither a sign of
assignment nor an opening bracket follows, and nowhere else. -/
theorem program_expected {limit : ℕ} {ts : List Token} {e : Expected} {found : Token}
    (h : (start limit ts).program.1 = .error (.unexpectedToken e found)) :
    ∃ k ≤ ts.length, (start limit ts).program.2.consumed = k ∧ found = tokenAt ts k ∧
      Viable ((ts.take k).map Token.category) ∧
      (e ≠ .oneOf First.statement →
        (∀ c, e.contains c = true → Follows ((ts.take k).map Token.category) c) ∧
          e.contains found.category = false) ∧
      (e = .oneOf First.statement →
        ∃ q, (ts.take k).map Token.category = q ++ [identifier] ∧ BeginsStatement q identifier ∧
          found.category ≠ assign ∧ found.category ≠ openParen) := by
  obtain ⟨t, hle, hreach, hend⟩ := program_spec limit ts
  refine ⟨_, hle, rfl, ?_⟩
  generalize (start limit ts).program.2.consumed = k at hreach hend
  rw [h] at hend
  obtain ⟨d, rest, hr, rfl⟩ := Verdict.exists_eq_reject hend
  refine ⟨rfl, hreach.viable, fun he => hreach.follows_of_refusal hr he, ?_⟩
  rintro rfl
  exact hreach.exists_name_of_refusal hr

/-- In `f ( ) { x = ; }` an operand is expected and a number would have fitted; in `f ( ) { x ; }` the name
begins a statement, and the error names what statements start with. -/
theorem program_expected_of_semicolon :
    let q := [identifier, openParen, closeParen, openBrace]
    let token : Category → Token := fun c => ⟨none, c, .start⟩
    (start 2 ((q ++ [identifier, assign, semicolon]).map token)).program.1 =
        .error (.unexpectedToken (.oneOf First.primary) (token semicolon)) ∧
      Viable (q ++ [identifier, assign, intLiteral]) ∧
      (start 2 ((q ++ [identifier, semicolon]).map token)).program.1 =
        .error (.unexpectedToken (.oneOf First.statement) (token semicolon)) ∧
      BeginsStatement q identifier := by
  intro q token
  have hoperand : (start 2 ((q ++ [identifier, assign, semicolon]).map token)).program.1 =
      .error (.unexpectedToken (.oneOf First.primary) (token semicolon)) := by
    decide +kernel
  have hname : (start 2 ((q ++ [identifier, semicolon]).map token)).program.1 =
      .error (.unexpectedToken (.oneOf First.statement) (token semicolon)) := by
    decide +kernel
  obtain ⟨k, -, hk, -, -, hfollows, -⟩ := program_expected hoperand
  obtain rfl : 6 = k := hk ▸ by decide +kernel
  obtain ⟨k, -, hk, -, -, -, hbegins⟩ := program_expected hname
  obtain rfl : 5 = k := hk ▸ by decide +kernel
  obtain ⟨q', hq', hstatement, -⟩ := hbegins rfl
  obtain rfl : q = q' := List.append_inj_left' (show q ++ [identifier] = q' ++ [identifier] from hq') rfl
  exact ⟨hoperand, (hfollows (by decide)).1 intLiteral (by decide), hname, hstatement⟩

end Parser

end Drac.Syntax
