import Drac.Log.Event

/-!
# Sources of tokens

A source of tokens gives one token at a time and may log events while doing so.  A list is a source,
and so is a lexer.  Every source is finite: a measure falls with each token that it gives.

## Main definitions

* `Pull`, `TokenSource` — one request to a source, and what a source is.
* `TokenSource.drain` — everything that a source still gives.

## Main results

* `TokenSource.size_pull_lt` (a field) — a source runs dry.
* `TokenSource.toList_list` — a list gives its own members.
-/

namespace Drac

open Log (Event)

/-- The answer of a source to one request. -/
structure Pull (σ : Type) where
  /-- The token, or none if the source has run dry. -/
  token : Option Token
  /-- What was logged on the way. -/
  events : List Event
  /-- The source as it is afterwards. -/
  source : σ

/-- Something that gives tokens on request until it runs dry. -/
class TokenSource (σ : Type) where
  /-- Asks for the next token. -/
  pull : σ → Pull σ
  /-- A bound on the number of tokens that are left. -/
  size : σ → Nat
  /-- The bound falls with every token. -/
  size_pull_lt : ∀ s, (pull s).token.isSome = true → size (pull s).source < size s

/-- A list gives its members in order. -/
instance : TokenSource (List Token) where
  pull
    | [] => ⟨none, [], []⟩
    | t :: ts => ⟨some t, [], ts⟩
  size := List.length
  size_pull_lt s h := by cases s <;> simp_all

namespace TokenSource

@[simp] theorem pull_nil : pull ([] : List Token) = ⟨none, [], []⟩ := rfl

@[simp] theorem pull_cons (t : Token) (ts : List Token) : pull (t :: ts) = ⟨some t, [], ts⟩ := rfl

variable {σ : Type} [TokenSource σ]

/-- Everything that a source gives until it runs dry. -/
structure Drained (σ : Type) where
  /-- The tokens in order. -/
  tokens : Array Token
  /-- The events in order. -/
  events : Array Event
  /-- The source that has run dry. -/
  source : σ

set_option linter.unusedVariables false in
/-- Asks a source for tokens until it runs dry, after some tokens and events. -/
def drainAfter (tokens : Array Token) (events : Array Event) (s : σ) : Drained σ :=
  match h : pull s with
  | ⟨none, es, s'⟩ => ⟨tokens, events ++ es, s'⟩
  | ⟨some t, es, s'⟩ => drainAfter (tokens.push t) (events ++ es) s'
termination_by size s
decreasing_by
  have hlt := size_pull_lt s (by simp [h])
  simpa [h] using hlt

/-- Asks a source for tokens until it runs dry. -/
def drain (s : σ) : Drained σ := drainAfter #[] #[] s

set_option linter.unusedVariables false in
/-- The tokens that a source still gives. -/
def toList (s : σ) : List Token :=
  match h : pull s with
  | ⟨none, _, _⟩ => []
  | ⟨some t, _, s'⟩ => t :: toList s'
termination_by size s
decreasing_by
  have hlt := size_pull_lt s (by simp [h])
  simpa [h] using hlt

/-- A list gives its own members. -/
@[simp] theorem toList_list (ts : List Token) : toList ts = ts := by
  induction ts with
  | nil => rw [toList]; simp
  | cons t ts ih => rw [toList]; simp [ih]

/-- Draining adds the tokens that the source gives to those seen before. -/
theorem tokens_drainAfter (tokens : Array Token) (events : Array Event) (s : σ) :
    (drainAfter tokens events s).tokens.toList = tokens.toList ++ toList s := by
  fun_induction drainAfter tokens events s with
  | case1 tokens events s es s' h =>
    rw [toList]
    split <;> simp_all
  | case2 tokens events s t es s' h ih =>
    rw [ih]
    conv => rhs; rw [toList]
    split <;> simp_all

theorem tokens_drain (s : σ) : (drain s).tokens.toList = toList s := by
  simp [drain, tokens_drainAfter]

end TokenSource

end Drac
