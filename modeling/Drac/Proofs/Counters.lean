import Drac.Proofs.Positions

/-!
# The counters of a lexer

What a lexer counts changes with the tokens that it gives, as their categories say, and comments and lines
leave it alone.  So after any number of requests it is what the tokens given have made of it one after the
other.  In particular a counter that goes up by one for each token of some categories is ahead by the tokens
of these categories that have been given, the end of the input not counted.

## Main definitions

* `Lexer.given` — the tokens given in answer to some requests, the end of the input left out.
* `Metrics.Folds f g` — each token changes the part `f` of the counters by `g`.
* `Metrics.Counts f p` — the counter `f` counts the tokens of the categories `p`.

## Main results

* `Metrics.Folds.next` — what one request makes of a part of the counters.
* `Metrics.Folds.after` — so any number of requests folds the tokens given.
* `Metrics.Counts.after` — **what any number of requests add**: one for each token counted.
-/

namespace Drac.Lexer

/-! ### The tokens given -/

/-- The tokens given in answer to the first requests to a lexer, the end of the input left out. -/
def given (s : Lexer) (n : ℕ) : List Token :=
  ((List.range n).filterMap fun i => (s.after i).next.token).filter fun t => !t.isEof

theorem given_succ (s : Lexer) (n : ℕ) :
    s.given (n + 1) = s.given n ++ (s.after n).next.token.toList.filter fun t => !t.isEof := by
  rw [given, given, List.range_succ, List.filterMap_append, List.filter_append]
  rfl

/-- The token of a span is no end of the input. -/
theorem filter_toList_emit {s : Lexer} {span : Span} {rest : List Char} {c : Category}
    (hs : nextSpan? s.rest = some (span, rest)) (hc : span.category? = some c) :
    (s.emit span c rest).token.toList.filter (fun t => !t.isEof) =
      [⟨some (String.ofList span.text), c, s.place.position⟩] := by
  have hne : c ≠ .eof := by
    rintro rfl
    exact Span.category?_ne_eof hs hc
  exact List.filter_cons_of_pos (by simpa [Token.isEof] using hne)

theorem given_eq_filter_take (s : Lexer) (n : ℕ) :
    s.given n = (s.remaining.take n).filter fun t => !t.isEof := by
  induction n with
  | zero => rfl
  | succ n ih => rw [given_succ, ih, token_after, List.take_add_one, List.filter_append]

theorem ne_eof_of_mem_given {s : Lexer} {n : ℕ} {t : Token} (ht : t ∈ s.given n) :
    t.category ≠ .eof := by
  intro heof
  have hnot := (List.mem_filter.mp ht).2
  rw [Token.isEof_iff.mpr heof] at hnot
  cases hnot

/-! ### What a token changes -/

namespace Metrics

/-- A part of the counters that each token changes, as its category says, and nothing else. -/
structure Folds {β : Type} (f : Metrics → β) (g : β → Category → β) : Prop where
  token : ∀ m c, f (m.countToken c) = g (f m) c
  comment : ∀ m, f m.countComment = f m
  line : ∀ m line, f (m.atLine line) = f m

namespace Folds

variable {β : Type} {f : Metrics → β} {g : β → Category → β}

theorem skip (h : Folds f g) (s : Lexer) (span : Span) (rest : List Char) :
    f (s.skip span rest).metrics = f s.metrics := by
  show f ((if span.isComment then s.metrics.countComment else s.metrics).atLine _) = _
  rw [h.line]
  split
  · exact h.comment _
  · rfl

theorem skips (h : Folds f g) {s s' : Lexer} (hs : Skips s s') : f s'.metrics = f s.metrics := by
  induction hs with
  | refl => rfl
  | skip _ _ _ ih => rw [ih, h.skip]

/-- A request makes of a part of the counters what the token given does, unless it is the end of the
input. -/
theorem next (h : Folds f g) (s : Lexer) :
    f s.next.source.metrics =
      ((s.next.token.toList.filter fun t => !t.isEof).map Token.category).foldl g (f s.metrics) := by
  by_cases hf : s.finished
  · rw [next_of_finished hf]
    rfl
  obtain ⟨s', hskips, hcases⟩ := next_cases s (by simpa using hf)
  rw [← h.skips hskips]
  rcases hcases with ⟨-, hnext⟩ | ⟨span, rest, c, hspan, hc, hnext⟩
  · rw [hnext]
    rfl
  · rw [hnext, filter_toList_emit hspan hc]
    show f ((s'.metrics.countToken c).atLine _) = g (f s'.metrics) c
    rw [h.line, h.token]

/-- Requests make of a part of the counters what the tokens given do. -/
theorem after (h : Folds f g) (s : Lexer) (n : ℕ) :
    f (s.after n).metrics = ((s.given n).map Token.category).foldl g (f s.metrics) := by
  induction n with
  | zero => rfl
  | succ n ih => rw [after_succ, h.next, ih, given_succ, List.map_append, List.foldl_append]

end Folds

/-! ### Counting -/

/-- A counter that goes up by one for a token of the categories `p`, and for nothing else. -/
structure Counts (f : Metrics → ℕ) (p : Category → Bool) : Prop where
  token : ∀ m c, f (m.countToken c) = f m + (p c).toNat
  comment : ∀ m, f m.countComment = f m
  line : ∀ m line, f (m.atLine line) = f m

theorem counts_totalTokens : Counts totalTokens fun _ => true where
  token m c := by cases c <;> rfl
  comment _ := rfl
  line _ _ := rfl

theorem counts_illegalChars : Counts illegalChars (· == .illegalChar) where
  token m c := by cases c <;> rfl
  comment _ := rfl
  line _ _ := rfl

namespace Counts

variable {f : Metrics → ℕ} {p : Category → Bool}

/-- Whether a token is one of those counted; the end of the input never is. -/
def counted (p : Category → Bool) (t : Token) : Bool := !t.isEof && p t.category

theorem folds (h : Counts f p) : Folds f fun k c => k + (p c).toNat :=
  ⟨h.token, h.comment, h.line⟩

theorem foldl_eq_add_countP (p : Category → Bool) (cs : List Category) (k : ℕ) :
    cs.foldl (fun k c => k + (p c).toNat) k = k + cs.countP p := by
  induction cs generalizing k with
  | nil => rfl
  | cons c cs ih =>
    rw [List.foldl_cons, ih, List.countP_cons, Nat.add_assoc, Nat.add_comm (p c).toNat]
    cases p c <;> rfl

/-- A counter is ahead by the tokens given that it counts. -/
theorem after_given (h : Counts f p) (s : Lexer) (n : ℕ) :
    f (s.after n).metrics = f s.metrics + (s.given n).countP fun t => p t.category := by
  rw [h.folds.after, foldl_eq_add_countP, List.countP_map]
  rfl

/-- Requests add one for each token given that is counted. -/
theorem after (h : Counts f p) (s : Lexer) (n : ℕ) :
    f (s.after n).metrics = f s.metrics + (s.remaining.take n).countP (counted p) := by
  rw [h.after_given, given_eq_filter_take, List.countP_filter]
  congr 2
  funext t
  exact Bool.and_comm ..

end Counts

end Metrics

end Drac.Lexer
