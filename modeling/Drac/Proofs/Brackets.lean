import Drac.Proofs.Runs

/-!
# Brackets

The brackets of an accepted program are properly nested and matched.  More of them can be open than levels
of nesting, since some open no level: those around the body of a function, and those of a condition, a call
or a list before the expression in them has started.  At any point this makes two at most.

A part of a rule need not be matched by itself: one part opens a bracket and another closes it.  So a
derivation is followed by the list of closing brackets that are awaited while its word is read.  What an
expression of the grammar does to this list is computed from its form, and the rules are checked one by one.

## Main definitions

* `Category.closer?`, `Category.isCloser`, `Category.isBracket` — the brackets.
* `Matched` — words of brackets that are properly nested and matched.
* `bracketDepth` — the brackets that a word opens and does not close.
* `Scans r a w b` — reading `w` turns the awaited brackets `a` into `b`, with at most `r` of them open.
* `Ebnf.await r e a` — what an expression does to the awaited brackets.

## Main results

* `Scans.closes`, `Scans.bracketDepth_le` — what is read up to the last awaited bracket is matched, and the
  depth is the number of awaited brackets.
* `Derives.scans` — **the words of an expression do to the awaited brackets what the expression does.**
* `Parser.matched_of_program_ok` — **accepted programs are matched**, with at most two brackets more open
  than levels are allowed.
-/

namespace Drac

namespace Category

/-- The bracket that closes an opening one. -/
def closer? : Category → Option Category
  | openParen => some closeParen
  | openBracket => some closeBracket
  | openBrace => some closeBrace
  | _ => none

/-- Whether a category is a closing bracket. -/
def isCloser : Category → Bool
  | closeParen | closeBracket | closeBrace => true
  | _ => false

/-- Whether a category is a bracket. -/
def isBracket (c : Category) : Bool := c.closer?.isSome || c.isCloser

theorem isBracket_of_closer? {a b : Category} (h : a.closer? = some b) : a.isBracket = true := by
  simp [isBracket, h]

theorem isBracket_of_isCloser {c : Category} (h : c.isCloser = true) : c.isBracket = true := by
  simp [isBracket, h]

/-- A closing bracket opens nothing. -/
theorem closer?_eq_none_of_isCloser {c : Category} (h : c.isCloser = true) : c.closer? = none := by
  revert h
  cases c <;> simp [closer?, isCloser]

end Category

namespace Syntax

open Category

/-! ### Words of brackets -/

/-- A word of brackets that are properly nested and matched: each opening bracket is closed by its own
closing one, with matched brackets in between. -/
inductive Matched : List Category → Prop
  | nil : Matched []
  | pair {a b : Category} {u v : List Category} :
      a.closer? = some b → Matched u → Matched v → Matched (a :: u ++ b :: v)

/-- What a category adds to the number of open brackets. -/
def bracketWeight (c : Category) : ℤ :=
  if c.closer?.isSome then 1 else if c.isCloser then -1 else 0

/-- The number of brackets that a word opens and does not close. -/
def bracketDepth (w : List Category) : ℤ := (w.map bracketWeight).sum

@[simp] theorem bracketDepth_nil : bracketDepth [] = 0 := rfl

@[simp] theorem bracketDepth_cons (c : Category) (w : List Category) :
    bracketDepth (c :: w) = bracketWeight c + bracketDepth w := by
  simp [bracketDepth]

theorem bracketWeight_of_closer? {a b : Category} (h : a.closer? = some b) : bracketWeight a = 1 := by
  simp [bracketWeight, h]

theorem bracketWeight_of_isCloser {c : Category} (h : c.isCloser = true) : bracketWeight c = -1 := by
  simp [bracketWeight, closer?_eq_none_of_isCloser h, h]

/-- A word that closes the awaited brackets, the first one first, with matched words in front of each of
them and behind the last. -/
def Closes : List Category → List Category → Prop
  | [], w => Matched w
  | b :: awaited, w => ∃ u v, w = u ++ b :: v ∧ Matched u ∧ Closes awaited v

/-- A pair of brackets may stand in front of what closes the others. -/
theorem Closes.pair {a b : Category} (hab : a.closer? = some b) {awaited u v : List Category}
    (hu : Matched u) (hv : Closes awaited v) : Closes awaited (a :: u ++ b :: v) := by
  cases awaited with
  | nil => exact Matched.pair hab hu hv
  | cons c awaited =>
    obtain ⟨u', v', rfl, hu', hv'⟩ := hv
    exact ⟨a :: u ++ b :: u', v', by simp, Matched.pair hab hu hu', hv'⟩

/-! ### Reading a word -/

/-- `Scans r a w b`: reading the word `w` turns the closing brackets `a` that are awaited, the next one
first, into `b`, and no more than `r` of them are awaited at any point. -/
inductive Scans (r : ℕ) : List Category → List Category → List Category → Prop
  | nil {a : List Category} : a.length ≤ r → Scans r a [] a
  | opening {c d : Category} {a b w : List Category} :
      c.closer? = some d → a.length < r → Scans r (d :: a) w b → Scans r a (c :: w) b
  | closing {c : Category} {a b w : List Category} :
      c.isCloser = true → a.length < r → Scans r a w b → Scans r (c :: a) (c :: w) b
  | other {c : Category} {a b w : List Category} :
      c.isBracket = false → Scans r a w b → Scans r a (c :: w) b

namespace Scans

variable {r r' : ℕ} {a b c u v w : List Category}

theorem length_le (h : Scans r a w b) : a.length ≤ r := by
  induction h with
  | nil ha => exact ha
  | opening _ ha _ _ => exact ha.le
  | closing _ ha _ _ => exact ha
  | other _ _ ih => exact ih

theorem mono (h : Scans r a w b) (hr : r ≤ r') : Scans r' a w b := by
  induction h with
  | nil ha => exact .nil (ha.trans hr)
  | opening hc ha _ ih => exact .opening hc (ha.trans_le hr) ih
  | closing hc ha _ ih => exact .closing hc (ha.trans_le hr) ih
  | other hc _ ih => exact .other hc ih

theorem append (h : Scans r a u b) (h' : Scans r b v c) : Scans r a (u ++ v) c := by
  induction h with
  | nil _ => exact h'
  | opening hc ha _ ih => exact .opening hc ha (ih h')
  | closing hc ha _ ih => exact .closing hc ha (ih h')
  | other hc _ ih => exact .other hc (ih h')

/-- A word that leaves no bracket awaited closes all that were, and its own brackets are matched. -/
theorem closes (h : Scans r a w []) : Closes a (w.filter isBracket) := by
  generalize hb : ([] : List Category) = b at h
  induction h with
  | nil _ =>
    subst hb
    exact .nil
  | opening hc _ _ ih =>
    obtain ⟨u, v, hw, hu, hv⟩ := ih hb
    rw [List.filter_cons_of_pos (isBracket_of_closer? hc), hw]
    exact hv.pair hc hu
  | @closing c a b w hc _ _ ih =>
    rw [List.filter_cons_of_pos (isBracket_of_isCloser hc)]
    exact ⟨[], w.filter isBracket, rfl, .nil, ih hb⟩
  | other hc _ ih =>
    rw [List.filter_cons_of_neg (by simp [hc])]
    exact ih hb

/-- The depth of what has been read is the number of brackets that are awaited more than before. -/
theorem bracketDepth_le (h : Scans r a w b) {p : List Category} (hp : p <+: w.filter isBracket) :
    0 ≤ a.length + bracketDepth p ∧ a.length + bracketDepth p ≤ r := by
  have hnil : ∀ {a : List Category}, a.length ≤ r →
      0 ≤ a.length + bracketDepth [] ∧ a.length + bracketDepth [] ≤ r := by
    intro a ha
    simp only [bracketDepth_nil]
    omega
  induction h generalizing p with
  | nil ha =>
    rw [List.filter_nil, List.prefix_nil] at hp
    rw [hp]
    exact hnil ha
  | opening hc ha _ ih =>
    rw [List.filter_cons_of_pos (isBracket_of_closer? hc), List.prefix_cons_iff] at hp
    rcases hp with rfl | ⟨q, rfl, hq⟩
    · exact hnil ha.le
    · have hinside := ih hq
      rw [bracketDepth_cons, bracketWeight_of_closer? hc]
      simp only [List.length_cons] at hinside
      omega
  | closing hc ha _ ih =>
    rw [List.filter_cons_of_pos (isBracket_of_isCloser hc), List.prefix_cons_iff] at hp
    rcases hp with rfl | ⟨q, rfl, hq⟩
    · exact hnil ha
    · have houtside := ih hq
      rw [bracketDepth_cons, bracketWeight_of_isCloser hc]
      simp only [List.length_cons]
      omega
  | other hc _ ih =>
    rw [List.filter_cons_of_neg (by simp [hc])] at hp
    exact ih hp

end Scans

/-! ### What the rules do to awaited brackets -/

/-- How far the number of awaited brackets can rise within a nonterminal above the number of levels that
are opened in it. -/
def Nonterminal.rise : Nonterminal → ℕ
  | variableDefinition | identifierList | parameterList | assignment | increment | decrement
  | expression | expressionList => 0
  | program | definitionList | definition | functionDefinition => 2
  | _ => 1

/-- What an expression does to the awaited brackets, if all its words do the same: a bracket opens or
closes something, a nonterminal leaves things as they are, and so do options and repetitions.  At most
`r` brackets may be awaited, those that a nonterminal needs above its levels included. -/
def Ebnf.await (r : ℕ) : Ebnf → List Category → Option (List Category)
  | terminal c, a =>
    match c.closer? with
    | some d => if a.length < r then some (d :: a) else none
    | none =>
      if c.isCloser then if a.head? = some c then some a.tail else none
      else some a
  | nonterminal n, a => if a.length + n.rise ≤ r then some a else none
  | seq e f, a => (e.await r a).bind (f.await r)
  | alt e f, a => if e.await r a = f.await r a then e.await r a else none
  | optional e, a => if e.await r a = some a then some a else none
  | star e, a => if e.await r a = some a then some a else none

namespace Ebnf

variable {r : ℕ} {e f : Ebnf} {a b : List Category}

theorem await_of_await_alt (h : (alt e f).await r a = some b) :
    e.await r a = some b ∧ f.await r a = some b := by
  simp only [await, Option.ite_none_right_eq_some] at h
  exact ⟨h.2, h.1 ▸ h.2⟩

theorem await_of_await_optional (h : (optional e).await r a = some b) :
    e.await r a = some a ∧ b = a := by
  simp only [await, Option.ite_none_right_eq_some, Option.some.injEq] at h
  exact ⟨h.1, h.2.symm⟩

theorem await_of_await_star (h : (star e).await r a = some b) : e.await r a = some a ∧ b = a := by
  simp only [await, Option.ite_none_right_eq_some, Option.some.injEq] at h
  exact ⟨h.1, h.2.symm⟩

end Ebnf

/-- The rule of a nonterminal closes what it opens, and stays within its own room. -/
theorem Nonterminal.await_rule (n : Nonterminal) :
    n.rule.await (n.rise + n.levels) [] = some [] := by
  cases n <;> decide

/-- A token does to the awaited brackets what it does as an expression, whatever is awaited behind them. -/
theorem Scans.terminal {r : ℕ} {c : Category} {a b : List Category} (ha : a.length ≤ r)
    (h : Ebnf.await r (.terminal c) a = some b) (base : List Category) :
    b.length ≤ r ∧ Scans (base.length + r) (a ++ base) [c] (b ++ base) := by
  have hlength : ∀ {a : List Category}, a.length ≤ r → (a ++ base).length ≤ base.length + r := by
    intro a ha
    simp only [List.length_append]
    omega
  rw [Ebnf.await] at h
  split at h
  · next d hc =>
    simp only [Option.ite_none_right_eq_some, Option.some.injEq] at h
    obtain ⟨hlt, rfl⟩ := h
    have hroom : (a ++ base).length < base.length + r := by
      simp only [List.length_append]
      omega
    exact ⟨hlt, .opening hc hroom (.nil hroom)⟩
  · next hc =>
    split at h
    · next hcloser =>
      simp only [Option.ite_none_right_eq_some, Option.some.injEq] at h
      obtain ⟨hhead, rfl⟩ := h
      obtain ⟨a, rfl⟩ := List.head?_eq_some_iff.mp hhead
      have hroom : (a ++ base).length < base.length + r := hlength ha
      exact ⟨(Nat.le_succ _).trans ha, .closing hcloser hroom (.nil hroom.le)⟩
    · next hcloser =>
      obtain rfl := Option.some.inj h
      have hother : c.isBracket = false := by simp [isBracket, hc, hcloser]
      exact ⟨ha, .other hother (.nil (hlength ha))⟩

/-- **The words of an expression do to the awaited brackets what the expression does**, whatever is awaited
behind them.  Each level that is opened allows for one bracket more. -/
theorem Derives.scans {d : ℕ} {e : Ebnf} {w : List Category} (h : Derives d e w) :
    ∀ {r : ℕ} {a b : List Category}, a.length ≤ r → e.await r a = some b → ∀ base : List Category,
      b.length ≤ r ∧ Scans (base.length + r + d) (a ++ base) w (b ++ base) := by
  -- an option or a repetition that is left out reads nothing
  have hnone : ∀ {r d : ℕ} {a : List Category}, a.length ≤ r → ∀ base : List Category,
      Scans (base.length + r + d) (a ++ base) [] (a ++ base) := by
    intro r d a ha base
    refine .nil ?_
    simp only [List.length_append]
    omega
  induction h with
  | terminal =>
    intro r a b ha hb base
    obtain ⟨hle, hscans⟩ := Scans.terminal ha hb base
    exact ⟨hle, hscans.mono (Nat.le_add_right _ _)⟩
  | @nonterminal d n w hn _ ih =>
    intro r a b ha hb base
    simp only [Ebnf.await, Option.ite_none_right_eq_some, Option.some.injEq] at hb
    obtain ⟨hroom, rfl⟩ := hb
    -- the rule has its own room, behind which all that is awaited so far stays as it is
    obtain ⟨-, hscans⟩ := ih (Nat.zero_le _) n.await_rule (a ++ base)
    refine ⟨ha, hscans.mono ?_⟩
    simp only [List.length_append]
    omega
  | seq _ _ ihe ihf =>
    intro r a b ha hb base
    rw [Ebnf.append_def, Ebnf.await] at hb
    obtain ⟨c, hc, hb⟩ := Option.bind_eq_some_iff.mp hb
    obtain ⟨hle, hu⟩ := ihe ha hc base
    obtain ⟨hle', hv⟩ := ihf hle hb base
    exact ⟨hle', hu.append hv⟩
  | altLeft _ ih =>
    intro r a b ha hb base
    exact ih ha (Ebnf.await_of_await_alt hb).1 base
  | altRight _ ih =>
    intro r a b ha hb base
    exact ih ha (Ebnf.await_of_await_alt hb).2 base
  | optionalNone =>
    intro r a b ha hb base
    obtain ⟨-, rfl⟩ := Ebnf.await_of_await_optional hb
    exact ⟨ha, hnone ha base⟩
  | optionalSome _ ih =>
    intro r a b ha hb base
    obtain ⟨hsame, rfl⟩ := Ebnf.await_of_await_optional hb
    exact ih ha hsame base
  | starNil =>
    intro r a b ha hb base
    obtain ⟨-, rfl⟩ := Ebnf.await_of_await_star hb
    exact ⟨ha, hnone ha base⟩
  | starCons _ _ ihe ihs =>
    intro r a b ha hb base
    obtain ⟨hle, hv⟩ := ihs ha hb base
    obtain ⟨hsame, rfl⟩ := Ebnf.await_of_await_star hb
    obtain ⟨-, hu⟩ := ihe ha hsame base
    exact ⟨hle, hu.append hv⟩

/-! ### Accepted programs -/

theorem Sentence.scans {d : ℕ} {w : List Category} (h : Sentence d w) :
    Scans (d + 2) [] (w ++ [eof]) [] := by
  have hawait : Ebnf.await 2 Nonterminal.program [] = some [] := by decide
  obtain ⟨-, hscans⟩ := Derives.scans h (Nat.zero_le _) hawait []
  exact hscans.mono (by simp only [List.length_nil]; omega)

namespace Parser

/-- **Accepted programs are matched.**  The brackets among the tokens in front of the end of the input are
properly nested and matched, and at no point are more than two of them open above the number of levels that
the limit allows. -/
theorem matched_of_program_ok {limit : ℕ} {ts : List Token}
    (h : (start limit ts).program.1 = .ok ()) :
    Matched ((word ts).filter isBracket) ∧
      ∀ p, p <+: (word ts).filter isBracket → 0 ≤ bracketDepth p ∧ bracketDepth p ≤ limit + 2 := by
  have hsentence : Sentence limit (word ts) := (program_ok_iff limit ts).mp h
  have hscans := hsentence.scans
  -- the end of the input is no bracket
  have hfilter : (word ts ++ [eof]).filter isBracket = (word ts).filter isBracket := by
    rw [List.filter_append, List.filter_singleton]
    exact List.append_nil _
  rw [← hfilter]
  refine ⟨hscans.closes, ?_⟩
  intro p hp
  have hdepth := hscans.bracketDepth_le hp
  simp only [List.length_nil] at hdepth
  omega

/-- In `f ( ) { while ( g ( [ ] ) ) { } }` four brackets are open at once, under a limit of two levels. -/
theorem matched_of_program_ok_of_list :
    let ts : List Token :=
      [identifier, openParen, closeParen, openBrace, kwWhile, openParen, identifier, openParen,
        openBracket, closeBracket, closeParen, closeParen, openBrace, closeBrace, closeBrace].map
          fun c => ⟨none, c, .start⟩
    (start 2 ts).program.1 = .ok () ∧ Matched ((word ts).filter isBracket) ∧
      bracketDepth (((word ts).filter isBracket).take 6) = 4 ∧
      bracketDepth (((word ts).filter isBracket).take 6) ≤ 2 + 2 := by
  intro ts
  have hok : (start 2 ts).program.1 = .ok () := by decide +kernel
  obtain ⟨hmatched, hdepth⟩ := matched_of_program_ok hok
  exact ⟨hok, hmatched, by decide, (hdepth _ (List.take_prefix 6 _)).2⟩

end Parser

end Syntax

end Drac
