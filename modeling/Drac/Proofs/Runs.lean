import Drac.Proofs.Recognition
import Mathlib.Data.List.TakeWhile

/-!
# Runs

A run over the tokens of a list is decided by their categories up to the end of the input.  Where it
stops and what is held against the token there are functions of this word, so that a statement about
the recognizer can be proved on words and stages alone, and be carried over to lists of tokens by one
equation.

## Main definitions

* `Judgement`, `Verdict.judgement?` — what a run ends with, the token apart that it ends at.
* `word` — the categories of a list of tokens up to the end of the input.
* `Stops limit w k j` — the run over the word `w` passes `k` tokens and ends with the judgement `j`.
* `Invariant` — what holds of the pending symbols at every step, once it holds.
* `SyntaxError.mapFound`, `Outcome.mapFound` — the same outcome with another token found.
* `Token.bare` — a token of which nothing is left but its category.

## Main results

* `Reaches.unique`, `Stops.unique` — a word leaves no choice.
* `Invariant.unfolds`, `Invariant.reaches` — an invariant holds after every move and every run.
* `Parser.exists_stops`, `Parser.program_of_stops` — **the recognizer does what the run over the word
  says**, and reports the token at which it stops.
* `Parser.program_of_word_eq` — **nothing but the categories up to the end of the input counts.**
-/

namespace Drac.Syntax

open Category

/-! ### Judgements -/

/-- What a run ends with: nothing is held against the token that follows, or something is. -/
abbrev Judgement := Except Refusal Unit

/-- What a verdict says if it ends a run; none if the token is passed. -/
def Verdict.judgement? : Verdict → Option Judgement
  | accept _ => some (.ok ())
  | shift .. => none
  | reject cause _ _ => some (.error cause)

/-- The outcome of a run is its judgement, told about the token at which it ends. -/
theorem Verdict.outcome?_eq_map_judgement? (limit : ℕ) (found : Token) (v : Verdict) :
    v.outcome? limit found = v.judgement?.map (Except.mapError (Refusal.error limit found)) := by
  cases v <;> rfl

theorem Verdict.exists_eq_reject_of_judgement? {v : Verdict} {cause : Refusal}
    (h : v.judgement? = some (.error cause)) : ∃ d k, v = .reject cause d k := by
  cases v with
  | accept d => cases h
  | shift d k => cases h
  | reject cause' d k =>
    cases h
    exact ⟨d, k, rfl⟩

theorem Verdict.exists_eq_accept_of_judgement? {v : Verdict}
    (h : v.judgement? = some (.ok ())) : ∃ d, v = .accept d := by
  cases v with
  | accept d => exact ⟨d, rfl⟩
  | shift d k => cases h
  | reject cause d k => cases h

/-- The same error with another token found. -/
def SyntaxError.mapFound (f : Token → Token) : SyntaxError → SyntaxError
  | unexpectedToken expected found => .unexpectedToken expected (f found)
  | maxNestingDepth limit found => .maxNestingDepth limit (f found)

/-- The same outcome with another token found. -/
def Outcome.mapFound (f : Token → Token) (o : Outcome) : Outcome := o.mapError (.mapFound f)

/-- An outcome tells its judgement about whatever token is found. -/
theorem Outcome.mapFound_mapError (f : Token → Token) (limit : ℕ) (found : Token) (j : Judgement) :
    Outcome.mapFound f (j.mapError (Refusal.error limit found)) =
      j.mapError (Refusal.error limit (f found)) := by
  cases j with
  | ok => rfl
  | error cause => cases cause <;> rfl

/-! ### Runs over words -/

section

variable {limit : ℕ} {s t u : Stage} {p q : List Category}

/-- A word leads from one stage to one stage only. -/
theorem Reaches.unique (h : Reaches limit s p t) (h' : Reaches limit s p u) : t = u := by
  induction h with
  | refl =>
    cases h'
    rfl
  | @step _ t _ _ _ hstep _ ih =>
    cases h' with
    | @step _ t' _ _ _ hstep' hrest =>
      cases t
      cases t'
      cases hstep.symm.trans hstep'
      exact ih hrest

/-- A run over one token is one step. -/
theorem Reaches.settle_of_singleton {c : Category} (h : Reaches limit s [c] t) :
    settle limit c s.depth s.pending = .shift t.depth t.pending := by
  cases h with
  | step hstep hrest =>
    cases hrest
    exact hstep

theorem Reaches.append (h : Reaches limit s p t) (h' : Reaches limit t q u) :
    Reaches limit s (p ++ q) u := by
  induction h with
  | refl => exact h'
  | step hstep _ ih => exact .step hstep (ih h')

theorem reaches_append_iff :
    Reaches limit s (p ++ q) u ↔ ∃ t, Reaches limit s p t ∧ Reaches limit t q u := by
  constructor
  · intro h
    induction p generalizing s with
    | nil => exact ⟨s, .refl s, h⟩
    | cons c p ih =>
      cases h with
      | step hstep hrest =>
        obtain ⟨t, hp, hq⟩ := ih hrest
        exact ⟨t, .step hstep hp, hq⟩
  · rintro ⟨t, hp, hq⟩
    exact hp.append hq

end

/-- Over the word `w`, behind which the input ends, the recognizer passes `k` tokens and then ends
with the judgement `j`. -/
structure Stops (limit : ℕ) (w : List Category) (k : ℕ) (j : Judgement) : Prop where
  le_length : k ≤ w.length
  judged : ∃ t, Reaches limit .start (w.take k) t ∧
    (settle limit (w[k]?.getD eof) t.depth t.pending).judgement? = some j

namespace Stops

variable {limit k k' : ℕ} {w : List Category} {j j' : Judgement}

/-- A run that ends after `k` tokens does not pass the token after them. -/
theorem not_reaches (h : Stops limit w k j) (hlt : k < k') (hle : k' ≤ w.length) (t : Stage) :
    ¬ Reaches limit .start (w.take k') t := by
  obtain ⟨s, hs, hj⟩ := h.judged
  have hk : k < w.length := by omega
  obtain ⟨m, rfl⟩ := Nat.exists_eq_add_of_lt hlt
  -- the next token is the one that the run ends at, so no step leads over it
  rw [Nat.add_assoc, List.take_add, List.drop_eq_getElem_cons hk, List.take_succ_cons,
    reaches_append_iff]
  rintro ⟨s', hs', hrest⟩
  obtain rfl := hs.unique hs'
  cases hrest with
  | step hstep _ =>
    rw [List.getElem?_eq_getElem hk, Option.getD_some, hstep] at hj
    cases hj

/-- A word leaves no choice where the run over it ends, and how. -/
theorem unique (h : Stops limit w k j) (h' : Stops limit w k' j') : k = k' ∧ j = j' := by
  obtain ⟨t, ht, hj⟩ := h.judged
  obtain ⟨t', ht', hj'⟩ := h'.judged
  have hk : k = k' := by
    rcases Nat.lt_trichotomy k k' with hlt | heq | hgt
    · exact absurd ht' (h.not_reaches hlt h'.le_length t')
    · exact heq
    · exact absurd ht (h'.not_reaches hgt h.le_length t)
  subst hk
  obtain rfl := ht.unique ht'
  exact ⟨rfl, Option.some.inj (hj.symm.trans hj')⟩

/-- A run ends well only at the end of the input, over a program. -/
theorem sentence_of_ok (h : Stops limit w k (.ok ())) (hw : eof ∉ w) :
    k = w.length ∧ Sentence limit w := by
  obtain ⟨t, ht, hj⟩ := h.judged
  obtain ⟨d, hd⟩ := Verdict.exists_eq_accept_of_judgement? hj
  obtain ⟨heof, hs⟩ := ht.sentence_of_accept hd
  have hk : k = w.length := by
    -- anywhere else the end of the input would be a token of the word
    by_contra hne
    have hlt : k < w.length := lt_of_le_of_ne h.le_length hne
    rw [List.getElem?_eq_getElem hlt, Option.getD_some] at heof
    exact hw (heof ▸ List.getElem_mem hlt)
  rw [hk, List.take_length] at hs
  exact ⟨hk, hs⟩

end Stops

/-! ### Invariants -/

/-- A property of the pending symbols, and of the number of open levels, that settling keeps. -/
structure Invariant (P : ℕ → List Symbol → Prop) : Prop where
  token : ∀ {d c k}, P d (.token c :: k) → P d k
  oneOf : ∀ {d s k}, P d (.oneOf s :: k) → P d k
  enter : ∀ {d k}, P d (.enter :: k) → P (d + 1) k
  leave : ∀ {d k}, P d (.leave :: k) → P (d - 1) k
  phrase : ∀ {d n k body}, body ∈ n.production.bodies → P d (.phrase n :: k) → P d (body ++ k)

namespace Invariant

variable {P : ℕ → List Symbol → Prop} {limit : ℕ} {c : Category} {s t : Stage}

theorem move (hP : Invariant P) (h : Move limit c s t)
    (hs : P s.depth s.pending) : P t.depth t.pending := by
  cases h with
  | enter _ => exact hP.enter hs
  | leave => exact hP.leave hs
  | predict hbody => exact hP.phrase (Production.mem_bodies_of_predict hbody) hs
  | atEnd ha _ =>
    rcases Symbol.eq_of_reads ha with rfl | ⟨s, rfl, -⟩
    · exact hP.token hs
    · exact hP.oneOf hs

/-- An invariant of the pending symbols holds after every move. -/
theorem unfolds (hP : Invariant P) (h : Unfolds limit c s t)
    (hs : P s.depth s.pending) : P t.depth t.pending := by
  induction h with
  | refl => exact hs
  | tail _ hmove ih => exact hP.move hmove ih

theorem settle_shift (hP : Invariant P) {depth d : ℕ} {pending k : List Symbol}
    (hp : P depth pending) (h : settle limit c depth pending = .shift d k) : P d k := by
  obtain ⟨a, hu, ha, -⟩ := exists_of_settle_shift h
  have hfront : P d (a :: k) := hP.unfolds hu hp
  rcases Symbol.eq_of_reads ha with rfl | ⟨s, rfl, -⟩
  · exact hP.token hfront
  · exact hP.oneOf hfront

/-- An invariant holds after every run. -/
theorem reaches (hP : Invariant P) {p : List Category} (h : Reaches limit s p t)
    (hs : P s.depth s.pending) : P t.depth t.pending := by
  induction h with
  | refl => exact hs
  | step hstep _ ih => exact ih (hP.settle_shift hs hstep)

end Invariant

end Syntax

/-! ### Words of tokens -/

open Category

/-- The categories of a list of tokens up to the end of the input. -/
def word (ts : List Token) : List Category := (ts.takeWhile fun t => !t.isEof).map Token.category

theorem word_cons (t : Token) (ts : List Token) :
    word (t :: ts) = if t.isEof then [] else t.category :: word ts := by
  rw [word, List.takeWhile_cons]
  cases t.isEof <;> rfl

theorem eof_notMem_word (ts : List Token) : eof ∉ word ts := by
  intro hmem
  obtain ⟨t, ht, hcat⟩ := List.mem_map.mp hmem
  have hne := List.mem_takeWhile_imp ht
  rw [Token.isEof_iff.mpr hcat] at hne
  cases hne

theorem take_word {ts : List Token} {k : ℕ} (h : k ≤ (word ts).length) :
    (word ts).take k = (ts.take k).map Token.category := by
  rw [word, List.length_map] at h
  rw [word, ← List.map_take, List.prefix_iff_eq_take.mp (List.takeWhile_prefix _), List.take_take,
    Nat.min_eq_left h]

/-- Behind its word a list goes on with the end of the input. -/
theorem category_tokenAt {ts : List Token} {k : ℕ} (h : k ≤ (word ts).length) :
    (tokenAt ts k).category = (word ts)[k]?.getD eof := by
  induction ts generalizing k with
  | nil =>
    obtain rfl : k = 0 := Nat.le_zero.mp h
    rfl
  | cons t ts ih =>
    rw [word_cons] at h ⊢
    by_cases ht : t.isEof = true
    · rw [if_pos ht] at h ⊢
      obtain rfl : k = 0 := Nat.le_zero.mp h
      exact Token.isEof_iff.mp ht
    · rw [if_neg ht] at h ⊢
      cases k with
      | zero => rfl
      | succ k =>
        rw [List.getElem?_cons_succ, ← ih (Nat.le_of_succ_le_succ h)]
        -- the ends of both lists may differ in their positions, but not in their category
        rw [tokenAt, tokenAt, List.getElem?_cons_succ]
        cases ts[k]? <;> rfl

namespace Syntax.Parser

/-- The recognizer ends where the run over the word of its tokens stops, with the judgement told about
the token there. -/
theorem exists_stops (limit : ℕ) (ts : List Token) : ∃ j : Judgement,
    Stops limit (word ts) (start limit ts).program.2.consumed j ∧
      (start limit ts).program.1 =
        j.mapError (Refusal.error limit (tokenAt ts (start limit ts).program.2.consumed)) := by
  obtain ⟨t, hlength, hreach, hend⟩ := program_spec limit ts
  generalize (start limit ts).program.2.consumed = k at hlength hreach hend ⊢
  -- what has been passed lies in front of the first end of the input
  have hle : k ≤ (word ts).length := by
    rw [word, List.length_map, takeWhile_eq_take_append hreach.isEof_eq_false, List.length_append,
      List.length_take_of_le hlength]
    exact Nat.le_add_right ..
  rw [Verdict.outcome?_eq_map_judgement?, Option.map_eq_some_iff] at hend
  obtain ⟨j, hj, houtcome⟩ := hend
  refine ⟨j, ⟨hle, t, ?_, ?_⟩, houtcome.symm⟩
  · rw [take_word hle]
    exact hreach
  · rw [← category_tokenAt hle]
    exact hj

/-- The recognizer does what the run over the word of its tokens says. -/
theorem program_of_stops {limit k : ℕ} {ts : List Token} {j : Judgement}
    (h : Stops limit (word ts) k j) : (start limit ts).program.2.consumed = k ∧
      (start limit ts).program.1 = j.mapError (Refusal.error limit (tokenAt ts k)) := by
  obtain ⟨j', hstops, houtcome⟩ := exists_stops limit ts
  obtain ⟨hk, rfl⟩ := hstops.unique h
  rw [houtcome, hk]
  exact ⟨rfl, rfl⟩

end Syntax.Parser

/-- The token with nothing left but its category. -/
def Token.bare (t : Token) : Token := ⟨none, t.category, .start⟩

namespace Syntax.Parser

/-- **Nothing but the categories up to the end of the input counts.**  Over two lists with the same word
the recognizer passes the same number of tokens, and it accepts both or neither: the errors agree in all
but the text and the place of the token that was found.  What stands behind the end of the input makes
no difference, nor does it if the list ends without one. -/
theorem program_of_word_eq {limit : ℕ} {ts us : List Token} (h : word ts = word us) :
    (start limit ts).program.2.consumed = (start limit us).program.2.consumed ∧
      Outcome.mapFound Token.bare (start limit ts).program.1 =
        Outcome.mapFound Token.bare (start limit us).program.1 := by
  obtain ⟨j, hstops, houtcome⟩ := exists_stops limit ts
  generalize (start limit ts).program.2.consumed = k at hstops houtcome
  have hfound : (tokenAt ts k).bare = (tokenAt us k).bare := by
    have hcategory : (tokenAt ts k).category = (tokenAt us k).category := by
      rw [category_tokenAt hstops.le_length, category_tokenAt (h ▸ hstops.le_length), h]
    rw [Token.bare, Token.bare, hcategory]
  rw [h] at hstops
  obtain ⟨hconsumed, houtcome'⟩ := program_of_stops hstops
  refine ⟨hconsumed.symm, ?_⟩
  rw [houtcome, houtcome', Outcome.mapFound_mapError, Outcome.mapFound_mapError, hfound]

/-- A list that goes on behind the end of the input, and one that ends without it and has other texts at
other places. -/
theorem program_of_word_eq_of_missing_end :
    let ts : List Token := [⟨some "f", identifier, ⟨1, 1⟩⟩, ⟨some "(", openParen, ⟨1, 2⟩⟩,
      Token.eof ⟨1, 3⟩, ⟨some ")", closeParen, ⟨1, 4⟩⟩]
    let us : List Token := [⟨none, identifier, ⟨8, 5⟩⟩, ⟨some "[", openParen, ⟨2, 9⟩⟩]
    word ts = word us ∧ (start 3 ts).program.2.consumed = (start 3 us).program.2.consumed ∧
      Outcome.mapFound Token.bare (start 3 ts).program.1 =
        .error (.unexpectedToken (.category closeParen) ⟨none, eof, .start⟩) ∧
      Outcome.mapFound Token.bare (start 3 us).program.1 =
        .error (.unexpectedToken (.category closeParen) ⟨none, eof, .start⟩) := by
  intro ts us
  have hword : word ts = word us := by decide
  have houtcome : Outcome.mapFound Token.bare (start 3 ts).program.1 =
      .error (.unexpectedToken (.category closeParen) ⟨none, eof, .start⟩) := by
    decide +kernel
  obtain ⟨hconsumed, hsame⟩ := @program_of_word_eq 3 _ _ hword
  exact ⟨hword, hconsumed, houtcome, hsame ▸ houtcome⟩

end Syntax.Parser

end Drac
