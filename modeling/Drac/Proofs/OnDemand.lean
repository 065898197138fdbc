import Drac.Syntax.Parser
import Mathlib.Logic.Function.Iterate

/-!
# Tokens on demand

The recognizer asks its source for one token at a time, and a source may change with every request.
Its outcome is still the one over the finished list of tokens: the two runs keep in step, and at any
time the source has been asked for one token more than have been passed.

## Main definitions

* `TokenSource.after` — a source after some requests.
* `Cursor.InStep s c l` — the cursor `c` over the source `s` and the cursor `l` over a list agree.

## Main results

* `TokenSource.source_drain` — what taking all tokens makes of a source.
* `Cursor.InStep.advance` — cursors that agree move alike.
* `Parser.run_inStep` — so do recognizers.
* `Parser.program_onDemand` — **recognizing a source is recognizing the list of its tokens**, and takes
  no more of them than the recognizer has met.
-/

namespace Drac

/-! ### Sources after requests -/

namespace TokenSource

variable {σ : Type} [TokenSource σ]

/-- A source after some requests. -/
def after (s : σ) (n : ℕ) : σ := (fun s => (pull s).source)^[n] s

theorem after_succ (s : σ) (n : ℕ) : after s (n + 1) = (pull (after s n)).source :=
  Function.iterate_succ_apply' ..

theorem toList_of_token_eq_none {s : σ} (h : (pull s).token = none) : toList s = [] := by
  rw [toList]
  split
  · rfl
  · next hp =>
    rw [hp] at h
    cases h

theorem toList_of_token_eq_some {s : σ} {t : Token} (h : (pull s).token = some t) :
    toList s = t :: toList (pull s).source := by
  rw [toList]
  split
  · next hp =>
    rw [hp] at h
    cases h
  · next hp =>
    rw [hp] at h ⊢
    cases h
    rfl

/-- Taking all tokens takes one request more than there are tokens. -/
theorem source_drain (s : σ) : (drain s).source = after s ((toList s).length + 1) := by
  suffices h : ∀ tokens events,
      (drainAfter tokens events s).source = after s ((toList s).length + 1) from h #[] #[]
  intro tokens events
  fun_induction drainAfter tokens events s with
  | case1 tokens events s es s' hp =>
    have hnone : (pull s).token = none := by rw [hp]
    rw [toList_of_token_eq_none hnone, List.length_nil, after_succ]
    show s' = (pull s).source
    rw [hp]
  | case2 tokens events s t es s' hp ih =>
    have hsome : (pull s).token = some t := by rw [hp]
    rw [ih, toList_of_token_eq_some hsome, hp, List.length_cons]
    show _ = after (pull s).source _
    rw [hp]

end TokenSource

open TokenSource

/-! ### Cursors in step -/

namespace Cursor

variable {σ : Type} [TokenSource σ] {s : σ} {c : Cursor σ} {l : Cursor (List Token)}

/-- A cursor over the source `s` stands on the same token as a cursor over a list, behind the same
number of tokens.  The source has been asked for the tokens up to this one, and it still has those that
follow in the list.  At the end of the input nothing is asked about what follows. -/
structure InStep (s : σ) (c : Cursor σ) (l : Cursor (List Token)) : Prop where
  current : c.current = l.current
  consumed : c.consumed = l.consumed
  source : c.source = after s (c.consumed + 1)
  rest : c.current.isEof = false → toList c.source = l.source

theorem inStep_start (s : σ) : InStep s (start s) (start (toList s)) := by
  have hsource : (start s).source = (pull s).source := rfl
  cases ht : (pull s).token with
  | none =>
    have hcurrent : (start s).current = Token.eof .start := by simp [start, ht]
    rw [toList_of_token_eq_none ht]
    exact ⟨hcurrent, rfl, rfl, fun h => by rw [hcurrent] at h; cases h⟩
  | some t =>
    have hcurrent : (start s).current = t := by simp [start, ht]
    rw [toList_of_token_eq_some ht]
    exact ⟨hcurrent, rfl, rfl, fun _ => rfl⟩

/-- A move asks the source for one token, or it is none. -/
theorem source_advance (h : c.current.isEof = false) :
    c.advance.source = (pull c.source).source := by
  unfold advance
  rw [if_neg (by simp [h])]
  split
  · next hp => rw [hp]
  · next hp => rw [hp]

/-- A move leads to the token that the source gives, or to the end of the input right behind the
current token. -/
theorem current_advance (h : c.current.isEof = false) :
    c.advance.current = (pull c.source).token.getD (Token.eof c.current.endPosition) := by
  unfold advance
  rw [if_neg (by simp [h])]
  split
  · next hp => rw [hp]; rfl
  · next hp => rw [hp]; rfl

/-- Cursors that agree move alike. -/
theorem InStep.advance (h : InStep s c l) : InStep s c.advance l.advance := by
  by_cases heof : c.current.isEof = true
  · rw [advance_of_isEof heof, advance_of_isEof (h.current ▸ heof)]
    exact h
  have hc : c.current.isEof = false := by simpa using heof
  have hl : l.current.isEof = false := h.current ▸ hc
  have hconsumed : c.advance.consumed = l.advance.consumed := by
    rw [consumed_advance hc, consumed_advance hl, h.consumed]
  have hsource : c.advance.source = after s (c.advance.consumed + 1) := by
    rw [source_advance hc, consumed_advance hc, after_succ, ← h.source]
  have hrest := h.rest hc
  -- the source is asked for the token that stands next in the list, if there is one
  cases ht : (pull c.source).token with
  | none =>
    rw [toList_of_token_eq_none ht] at hrest
    have hcurrent : c.advance.current = Token.eof c.current.endPosition := by
      rw [current_advance hc, ht]
      rfl
    refine ⟨?_, hconsumed, hsource, fun heof => by rw [hcurrent] at heof; cases heof⟩
    rw [hcurrent, current_advance hl, ← hrest, h.current]
    rfl
  | some t =>
    rw [toList_of_token_eq_some ht] at hrest
    refine ⟨?_, hconsumed, hsource, fun _ => ?_⟩
    · rw [current_advance hc, current_advance hl, ht, ← hrest]
      rfl
    · rw [source_advance hc, source_advance hl, ← hrest]
      rfl

end Cursor

/-! ### Recognizers in step -/

namespace Syntax.Parser

section

variable {σ : Type} [TokenSource σ] {pending : List Symbol} {p : Parser σ}

theorem run_of_accept {d : ℕ}
    (h : settle p.maxDepth p.cursor.category p.depth pending = .accept d) :
    run pending p = (.ok (), { p with depth := d }) := by
  rw [run]
  split <;> simp_all

theorem run_of_reject {cause : Refusal} {d : ℕ} {rest : List Symbol}
    (h : settle p.maxDepth p.cursor.category p.depth pending = .reject cause d rest) :
    run pending p =
      (.error (cause.error p.maxDepth p.cursor.current),
        { p with depth := d - Symbol.closes rest }) := by
  rw [run]
  split <;> simp_all

theorem run_of_shift {d : ℕ} {rest : List Symbol}
    (h : settle p.maxDepth p.cursor.category p.depth pending = .shift d rest) :
    run pending p = run rest { p.advance with depth := d } := by
  rw [run]
  split <;> simp_all

/-- Recognizers over cursors that agree come to the same outcome, and their cursors still agree. -/
theorem run_inStep (pending : List Symbol) {s : σ} {q : Parser (List Token)}
    (hcursor : p.cursor.InStep s q.cursor)
    (hdepth : p.depth = q.depth) (hlimit : p.maxDepth = q.maxDepth) :
    (run pending p).1 = (run pending q).1 ∧
      (run pending p).2.cursor.InStep s (run pending q).2.cursor := by
  have hcategory {p : Parser σ} {q : Parser (List Token)} (h : p.cursor.InStep s q.cursor) :
      p.cursor.category = q.cursor.category := congrArg Token.category h.current
  fun_induction run pending p generalizing q with
  | case1 pending p d h =>
    rw [hlimit, hdepth, hcategory hcursor] at h
    rw [run_of_accept h]
    exact ⟨rfl, hcursor⟩
  | case2 pending p cause d rest h =>
    rw [hlimit, hdepth, hcategory hcursor] at h
    rw [run_of_reject h, hlimit, hcursor.current]
    exact ⟨rfl, hcursor⟩
  | case3 pending p d rest h ih =>
    rw [hlimit, hdepth, hcategory hcursor] at h
    rw [run_of_shift h]
    exact ih hcursor.advance rfl hlimit

end

/-- Recognizing a source is recognizing the list of its tokens.  When it ends, the source has been
asked for the tokens that were passed and for the one that ended it. -/
theorem program_onDemand {σ : Type} [TokenSource σ] (limit : ℕ) (s : σ) :
    (start limit s).program.1 = (start limit (toList s)).program.1 ∧
      (start limit s).program.2.consumed = (start limit (toList s)).program.2.consumed ∧
      (start limit s).program.2.cursor.source =
        after s ((start limit s).program.2.consumed + 1) := by
  have hstart : (start limit s).cursor.InStep s (start limit (toList s)).cursor :=
    Cursor.inStep_start s
  obtain ⟨houtcome, hcursor⟩ := run_inStep [.phrase .program] hstart rfl rfl
  exact ⟨houtcome, hcursor.consumed, hcursor.source⟩

end Syntax.Parser

end Drac
