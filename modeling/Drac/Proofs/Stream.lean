import Drac.Token.Cursor
import Mathlib.Data.List.TakeWhile
import Mathlib.Logic.Function.Iterate

/-!
# A cursor on its way

A cursor that moves on passes one token after the other.  Over a list of tokens the cursor is known
after any number of moves: it stands on the token of that number, or on the end of the input that
follows the last token.

## Main definitions

* `Cursor.upcoming` — the tokens that the next moves pass.
* `endToken`, `tokenAt` — the end of the input after a list of tokens, and the token of a number.
* `lengthBeforeEof` — the number of tokens before the first end of the input.
* `Cursor.At ts n c` — the cursor `c` stands on the token number `n` of `ts`.

## Main results

* `Cursor.at_start`, `Cursor.At.advance`, `Cursor.At.iterate_advance` — where a cursor stands at
  the start, after one move, and after any number of moves.
* `Cursor.iterate_advance_start` — **what any number of moves from the start pass, count and take.**
-/

namespace Drac

namespace Cursor

/-- The tokens that the next `n` moves pass. -/
def upcoming {σ : Type} [TokenSource σ] : ℕ → Cursor σ → List Token
  | 0, _ => []
  | n + 1, c => c.current :: upcoming n c.advance

end Cursor

/-- The end of the input after a list of tokens, right behind the last of them. -/
def endToken (ts : List Token) : Token :=
  .eof ((ts.getLast?.map Token.endPosition).getD .start)

/-- The token number `n` of a list, counted from zero; behind the list it is the end of the
input. -/
def tokenAt (ts : List Token) (n : ℕ) : Token := ts[n]?.getD (endToken ts)

theorem tokenAt_of_lt {ts : List Token} {n : ℕ} (h : n < ts.length) : tokenAt ts n = ts[n] := by
  simp [tokenAt, h]

theorem tokenAt_length (ts : List Token) : tokenAt ts ts.length = endToken ts := by
  simp [tokenAt]

theorem isEof_endToken (ts : List Token) : (endToken ts).isEof = true := rfl

/-- A token that is not the end of the input stands in the list. -/
theorem lt_length_of_tokenAt {ts : List Token} {n : ℕ} (h : (tokenAt ts n).isEof = false) :
    n < ts.length := by
  by_contra hn
  rw [tokenAt, List.getElem?_eq_none (by omega), Option.getD_none, isEof_endToken] at h
  exact Bool.noConfusion h

/-- Tokens before the first end of the input stay in front of what stands there. -/
theorem takeWhile_eq_take_append {ts : List Token} {n : ℕ}
    (h : ∀ t ∈ ts.take n, t.isEof = false) :
    ts.takeWhile (fun t => !t.isEof) =
      ts.take n ++ (ts.drop n).takeWhile (fun t => !t.isEof) := by
  have happ : (ts.take n ++ ts.drop n).takeWhile (fun t => !t.isEof) =
      ts.take n ++ (ts.drop n).takeWhile (fun t => !t.isEof) :=
    List.takeWhile_append_of_pos fun t ht => by simp [h t ht]
  rwa [List.take_append_drop] at happ

/-- The first end of the input is where no token before it is one. -/
theorem takeWhile_eq_take {ts : List Token} {n : ℕ} (h : ∀ t ∈ ts.take n, t.isEof = false)
    (hn : (tokenAt ts n).isEof = true) : ts.takeWhile (fun t => !t.isEof) = ts.take n := by
  rw [takeWhile_eq_take_append h, List.append_right_eq_self]
  rcases Nat.lt_or_ge n ts.length with hlt | hge
  · rw [tokenAt_of_lt hlt] at hn
    rw [List.drop_eq_getElem_cons hlt, List.takeWhile_cons_of_neg (by simp [hn])]
  · simp [List.drop_eq_nil_of_le hge]

/-- The number of tokens before the first end of the input, which is that of all tokens if there is
none. -/
def lengthBeforeEof (ts : List Token) : ℕ := (ts.takeWhile fun t => !t.isEof).length

theorem lengthBeforeEof_le (ts : List Token) : lengthBeforeEof ts ≤ ts.length :=
  (List.takeWhile_prefix _).length_le

theorem isEof_tokenAt_of_lt {ts : List Token} {n : ℕ} (h : n < lengthBeforeEof ts) :
    (tokenAt ts n).isEof = false := by
  have hlt : n < ts.length := Nat.lt_of_lt_of_le h (lengthBeforeEof_le ts)
  have hmem : ts[n] ∈ ts.takeWhile fun t => !t.isEof := by
    rw [← (List.takeWhile_prefix _).getElem h]
    exact List.getElem_mem h
  rw [tokenAt_of_lt hlt]
  simpa using List.mem_takeWhile_imp hmem

/-- Behind these tokens stands the end of the input, in the list or behind it. -/
theorem isEof_tokenAt_lengthBeforeEof (ts : List Token) :
    (tokenAt ts (lengthBeforeEof ts)).isEof = true := by
  induction ts with
  | nil => rfl
  | cons t ts ih =>
    by_cases ht : t.isEof = true
    · have hzero : lengthBeforeEof (t :: ts) = 0 := by simp [lengthBeforeEof, ht]
      rw [hzero, tokenAt_of_lt (by simp)]
      exact ht
    · have hsucc : lengthBeforeEof (t :: ts) = lengthBeforeEof ts + 1 := by
        simp [lengthBeforeEof, ht]
      rw [hsucc, tokenAt, List.getElem?_cons_succ]
      rw [tokenAt] at ih
      cases hget : ts[lengthBeforeEof ts]? with
      | none => rfl
      | some u => rwa [hget] at ih

namespace Cursor

/-- The cursor `c` over the list `ts` stands on the token number `n`, the others before it having
been passed. -/
structure At (ts : List Token) (n : ℕ) (c : Cursor (List Token)) : Prop where
  /-- The cursor is not past the end of the input. -/
  le_length : n ≤ ts.length
  /-- The tokens behind the current one are still to come. -/
  source_eq : c.source = ts.drop (n + 1)
  /-- The current token is the one of the number. -/
  current_eq : c.current = tokenAt ts n
  /-- All tokens before it have been passed. -/
  consumed_eq : c.consumed = n

/-- At the start a cursor stands on the first token. -/
theorem at_start (ts : List Token) : At ts 0 (Cursor.start ts) := by
  cases ts with
  | nil => exact ⟨Nat.le_refl _, rfl, rfl, rfl⟩
  | cons t ts => exact ⟨Nat.zero_le _, rfl, rfl, rfl⟩

/-- A move leads to the next token, unless the cursor stands on the end of the input. -/
theorem At.advance {ts : List Token} {n : ℕ} {c : Cursor (List Token)} (h : At ts n c)
    (hc : c.current.isEof = false) : At ts (n + 1) c.advance := by
  have hn : n < ts.length := lt_length_of_tokenAt (h.current_eq ▸ hc)
  have hcurrent : c.current = ts[n] := by rw [h.current_eq, tokenAt_of_lt hn]
  unfold Cursor.advance
  rw [if_neg (by simp [hc]), h.source_eq]
  rcases Nat.lt_or_ge (n + 1) ts.length with hlt | hge
  · rw [List.drop_eq_getElem_cons hlt, TokenSource.pull_cons]
    exact ⟨by omega, rfl, (tokenAt_of_lt hlt).symm, by simp [h.consumed_eq]⟩
  · have hlast : n + 1 = ts.length := by omega
    rw [List.drop_eq_nil_of_le hge, TokenSource.pull_nil]
    refine ⟨by omega, by rw [List.drop_eq_nil_of_le (by omega)], ?_, by simp [h.consumed_eq]⟩
    have hget : ts.getLast? = some c.current := by
      rw [List.getLast?_eq_getElem?, hcurrent, List.getElem?_eq_some_iff]
      exact ⟨by omega, by congr 1; omega⟩
    rw [hlast, tokenAt_length, endToken, hget]
    rfl

/-- From the start a cursor passes the tokens before the first end of the input, and there it stays. -/
theorem at_iterate_advance (ts : List Token) (n : ℕ) :
    At ts (min n (lengthBeforeEof ts)) (Cursor.advance^[n] (Cursor.start ts)) := by
  induction n with
  | zero =>
    rw [Nat.zero_min]
    exact at_start ts
  | succ n ih =>
    rw [Function.iterate_succ_apply']
    rcases Nat.lt_or_ge n (lengthBeforeEof ts) with hlt | hge
    · rw [Nat.min_eq_left (Nat.le_of_lt hlt)] at ih
      rw [Nat.min_eq_left hlt]
      apply ih.advance
      rw [ih.current_eq]
      exact isEof_tokenAt_of_lt hlt
    · rw [Nat.min_eq_right hge] at ih
      rw [Nat.min_eq_right (Nat.le_succ_of_le hge), advance_of_isEof]
      · exact ih
      · rw [ih.current_eq]
        exact isEof_tokenAt_lengthBeforeEof ts

/-- From the start a cursor passes tokens none of which is the end of the input. -/
theorem at_iterate_advance_start {ts : List Token} (hts : ∀ t ∈ ts, t.isEof = false) {n : ℕ}
    (hn : n ≤ ts.length) : At ts n (Cursor.advance^[n] (Cursor.start ts)) := by
  have hall : lengthBeforeEof ts = ts.length := by
    rw [lengthBeforeEof, List.takeWhile_eq_self_iff.mpr]
    intro t ht
    simp [hts t ht]
  have hat := at_iterate_advance ts n
  rwa [hall, Nat.min_eq_left hn] at hat

/-- After moves that did not pass the end of the input, the cursor stands as many tokens further
on, and has passed those in between. -/
theorem At.iterate_advance {ts : List Token} {n m : ℕ} {c : Cursor (List Token)} (h : At ts n c)
    (hm : ∀ t ∈ c.upcoming m, t.isEof = false) :
    At ts (n + m) (Cursor.advance^[m] c) ∧ c.upcoming m = (ts.drop n).take m := by
  induction m generalizing n c with
  | zero => exact ⟨h, by simp [upcoming]⟩
  | succ m ih =>
    have hc : c.current.isEof = false := hm _ List.mem_cons_self
    obtain ⟨hat, hup⟩ := ih (h.advance hc) fun t ht => hm t (List.mem_cons_of_mem _ ht)
    have hn : n < ts.length := lt_length_of_tokenAt (h.current_eq ▸ hc)
    refine ⟨by rwa [Nat.add_right_comm, Nat.add_assoc] at hat, ?_⟩
    rw [upcoming, hup, List.drop_eq_getElem_cons hn, List.take_succ_cons, h.current_eq,
      tokenAt_of_lt hn]

theorem length_upcoming {σ : Type} [TokenSource σ] (n : ℕ) (c : Cursor σ) :
    (c.upcoming n).length = n := by
  induction n generalizing c with
  | zero => rfl
  | succ n ih => rw [upcoming, List.length_cons, ih]

/-- A move passes the token that the cursor stands on before it. -/
theorem getElem?_upcoming {σ : Type} [TokenSource σ] {n j : ℕ} (hj : j < n) (c : Cursor σ) :
    (c.upcoming n)[j]? = some (Cursor.advance^[j] c).current := by
  induction n generalizing c j with
  | zero => cases hj
  | succ n ih =>
    cases j with
    | zero => rfl
    | succ j =>
      rw [upcoming, List.getElem?_cons_succ, ih (Nat.lt_of_succ_lt_succ hj),
        Function.iterate_succ_apply]

/-- **Any number of moves from the start.**  Each of them passes the next token of the list up to the
first end of the input, and this end from then on.  Afterwards the cursor has counted the tokens before
the end that it has passed, it stands on the token behind them, or on an end of the input without a text
right behind the list, and nothing has been taken from the list but these tokens. -/
theorem iterate_advance_start (ts : List Token) (n : ℕ) :
    let m := (ts.takeWhile fun t => !t.isEof).length
    let made := Token.eof ((ts.getLast?.map Token.endPosition).getD .start)
    let c := Cursor.advance^[n] (Cursor.start ts)
    (upcoming n (Cursor.start ts)).length = n ∧
      (∀ j < n, (upcoming n (Cursor.start ts))[j]? =
        if j < m then ts[j]? else some (ts[m]?.getD made)) ∧
      (ts[m]?.getD made).category = .eof ∧
      c.consumed = min n m ∧
      c.current = ts[min n m]?.getD made ∧
      c.source = ts.drop (min n m + 1) ∧
      ts.length - c.source.length = min (min n m + 1) ts.length := by
  intro m made c
  have hat : At ts (min n m) c := at_iterate_advance ts n
  refine ⟨length_upcoming n _, ?_, ?_, hat.consumed_eq, hat.current_eq, hat.source_eq, ?_⟩
  · intro j hj
    rw [getElem?_upcoming hj, (at_iterate_advance ts j).current_eq]
    show some (tokenAt ts (min j m)) = _
    split
    · next hlt =>
      have hlen : j < ts.length := Nat.lt_of_lt_of_le hlt (lengthBeforeEof_le ts)
      rw [Nat.min_eq_left (Nat.le_of_lt hlt), tokenAt_of_lt hlen, List.getElem?_eq_getElem hlen]
    · next hge =>
      rw [Nat.min_eq_right (Nat.le_of_not_lt hge)]
      rfl
  · apply Token.isEof_iff.mp
    exact isEof_tokenAt_lengthBeforeEof ts
  · rw [hat.source_eq, List.length_drop]
    omega

/-- Two ends of the input and a token behind them: the first end is never left, and nothing behind it is
taken. -/
example :
    let x : Token := ⟨some "x", .identifier, ⟨1, 1⟩⟩
    let c := Cursor.advance^[3] (Cursor.start [x, .eof ⟨1, 2⟩, .eof ⟨7, 7⟩, x])
    c.current = .eof ⟨1, 2⟩ ∧ c.consumed = 1 ∧ c.source = [.eof ⟨7, 7⟩, x] := by
  decide

end Cursor

end Drac
