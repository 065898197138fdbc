import Drac.Proofs.Ebnf
import Drac.Syntax.Grammar
import Mathlib.Tactic.Abel

/-!
# What pending symbols stand for

The recognizer keeps a list of symbols that must still follow.  Here every phrase is given the
expression of the grammar that it recognizes, and with it every list of pending symbols a language:
the words that may still follow, if `depth` levels of nesting are open.  The table of productions is
right about these languages: a phrase stands for exactly what its forms stand for.

## Main definitions

* `CategorySet.words` — the words of one token from a set.
* `Ebnf.ofPhrase` — the expression that a phrase recognizes.
* `spelled` — the words that a list of pending symbols stands for.

## Main results

* `mem_spelled_phrase` — **a phrase stands for what its forms stand for**, in every context.
-/

namespace Drac

/-- The words that consist of one token from a set. -/
def CategorySet.words (s : CategorySet) : Language Category := {w | ∃ c, s.contains c = true ∧ w = [c]}

theorem CategorySet.mem_words {s : CategorySet} {w : List Category} :
    w ∈ s.words ↔ ∃ c, s.contains c = true ∧ w = [c] := Iff.rfl

namespace Syntax

open Category

/-! ### Meanings -/

open Nonterminal in
/-- The expression of the grammar that a phrase recognizes. -/
def Ebnf.ofPhrase : Phrase → Ebnf
  | .program => program
  | .definitions => definitionList
  | .definition => definition
  | .variableDefinition => variableDefinition
  | .names => identifierList
  | .moreNames => .star ((comma : Ebnf) ++ identifier)
  | .functionDefinition => functionDefinition
  | .parameters => .optional parameterList
  | .locals => .star variableDefinition
  | .statements => statementList
  | .statement => statement
  | .afterName => (assignment : Ebnf) ||| callStatement
  | .conditional => conditional
  | .alternatives => .star elseIf
  | .fallback => .optional elseBranch
  | .whileLoop => whileLoop
  | .doLoop => doLoop
  | .guarded => (openParen : Ebnf) ++ expression ++ closeParen ++ block
  | .block => block
  | .expression => expression
  | .disjunction => disjunction
  | .moreDisjuncts => .star ((kwOr : Ebnf) ++ conjunction)
  | .conjunction => conjunction
  | .moreConjuncts => .star ((kwAnd : Ebnf) ++ comparison)
  | .comparison => comparison
  | .moreComparisons => .star (((equal : Ebnf) ||| notEqual) ++ relation)
  | .relation => relation
  | .moreRelations =>
    .star (((less : Ebnf) ||| lessEqual ||| greater ||| greaterEqual) ++ sum)
  | .sum => sum
  | .moreTerms => .star (((plus : Ebnf) ||| minus) ++ product)
  | .product => product
  | .moreFactors => .star (((mul : Ebnf) ||| div ||| mod) ++ unary)
  | .signed => unary
  | .primary => primary
  | .callPart => .optional ((openParen : Ebnf) ++ expressionList ++ closeParen)
  | .call => (openParen : Ebnf) ++ expressionList ++ closeParen
  | .arguments => expressionList
  | .moreArguments => .star ((comma : Ebnf) ++ expression)

/-- The words that a list of pending symbols stands for while `depth` levels of nesting are open, of
which there may be `limit`. -/
def spelled (limit : ℕ) : ℕ → List Symbol → Language Category
  | _, [] => 1
  | depth, .token c :: k => {[c]} * spelled limit depth k
  | depth, .oneOf s :: k => s.words * spelled limit depth k
  | depth, .phrase n :: k => (Ebnf.ofPhrase n).language (limit - depth) * spelled limit depth k
  | depth, .enter :: k => if limit ≤ depth then 0 else spelled limit (depth + 1) k
  | depth, .leave :: k => spelled limit (depth - 1) k

section

variable (limit depth : ℕ) (k : List Symbol)

@[simp] theorem spelled_nil : spelled limit depth [] = 1 := rfl

@[simp] theorem spelled_token (c : Category) :
    spelled limit depth (.token c :: k) = {[c]} * spelled limit depth k := rfl

@[simp] theorem spelled_oneOf (s : CategorySet) :
    spelled limit depth (.oneOf s :: k) = s.words * spelled limit depth k := rfl

theorem spelled_phrase (n : Phrase) : spelled limit depth (.phrase n :: k) =
    (Ebnf.ofPhrase n).language (limit - depth) * spelled limit depth k := rfl

@[simp] theorem spelled_enter : spelled limit depth (.enter :: k) =
    if limit ≤ depth then 0 else spelled limit (depth + 1) k := rfl

@[simp] theorem spelled_leave : spelled limit depth (.leave :: k) = spelled limit (depth - 1) k :=
  rfl

end

section

variable {limit depth : ℕ} {k : List Symbol} {w : List Category}

@[simp] theorem mem_spelled_nil : w ∈ spelled limit depth [] ↔ w = [] := Iff.rfl

theorem mem_spelled_token {c : Category} :
    w ∈ spelled limit depth (.token c :: k) ↔ ∃ v ∈ spelled limit depth k, w = c :: v := by
  rw [spelled_token, Language.mem_mul]
  constructor
  · rintro ⟨_, rfl, v, hv, rfl⟩
    exact ⟨v, hv, rfl⟩
  · rintro ⟨v, hv, rfl⟩
    exact ⟨[c], rfl, v, hv, rfl⟩

theorem mem_spelled_oneOf {s : CategorySet} : w ∈ spelled limit depth (.oneOf s :: k) ↔
    ∃ c, s.contains c = true ∧ ∃ v ∈ spelled limit depth k, w = c :: v := by
  rw [spelled_oneOf, Language.mem_mul]
  constructor
  · rintro ⟨_, ⟨c, hc, rfl⟩, v, hv, rfl⟩
    exact ⟨c, hc, v, hv, rfl⟩
  · rintro ⟨c, hc, v, hv, rfl⟩
    exact ⟨[c], ⟨c, hc, rfl⟩, v, hv, rfl⟩

theorem mem_spelled_phrase_iff_append {n : Phrase} : w ∈ spelled limit depth (.phrase n :: k) ↔
    ∃ u v, Derives (limit - depth) (.ofPhrase n) u ∧ v ∈ spelled limit depth k ∧ w = u ++ v := by
  rw [spelled_phrase, Language.mem_mul]
  constructor
  · rintro ⟨u, hu, v, hv, rfl⟩
    exact ⟨u, v, hu, hv, rfl⟩
  · rintro ⟨u, v, hu, hv, rfl⟩
    exact ⟨u, hu, v, hv, rfl⟩

theorem mem_spelled_enter :
    w ∈ spelled limit depth (.enter :: k) ↔ depth < limit ∧ w ∈ spelled limit (depth + 1) k := by
  rw [spelled_enter]
  split
  · next h => simp [Nat.not_lt.mpr h]
  · next h => simp [Nat.lt_of_not_le h]

end

/-- A larger limit forbids nothing. -/
theorem spelled_mono {limit limit' : ℕ} (hl : limit ≤ limit') {k : List Symbol} :
    ∀ {depth : ℕ} {w : List Category},
      w ∈ spelled limit depth k → w ∈ spelled limit' depth k := by
  induction k with
  | nil => exact fun h => h
  | cons s k ih =>
    intro depth w h
    cases s with
    | token c =>
      obtain ⟨v, hv, rfl⟩ := mem_spelled_token.mp h
      exact mem_spelled_token.mpr ⟨v, ih hv, rfl⟩
    | oneOf s =>
      obtain ⟨c, hc, v, hv, rfl⟩ := mem_spelled_oneOf.mp h
      exact mem_spelled_oneOf.mpr ⟨c, hc, v, ih hv, rfl⟩
    | phrase n =>
      obtain ⟨u, v, hu, hv, rfl⟩ := mem_spelled_phrase_iff_append.mp h
      exact mem_spelled_phrase_iff_append.mpr ⟨u, v, hu.mono (by omega), ih hv, rfl⟩
    | enter =>
      obtain ⟨hd, hw⟩ := mem_spelled_enter.mp h
      exact mem_spelled_enter.mpr ⟨by omega, ih hw⟩
    | leave => exact ih h

/-- Pending symbols can be satisfied under some limit, unless one asks for a token of no category
at all. -/
theorem exists_mem_spelled {k : List Symbol}
    (hk : ∀ s, Symbol.oneOf s ∈ k → ∃ c, s.contains c = true) (depth : ℕ) :
    ∃ limit w, w ∈ spelled limit depth k := by
  induction k generalizing depth with
  | nil => exact ⟨0, [], rfl⟩
  | cons s k ih =>
    have ih := ih fun s hs => hk s (List.mem_cons_of_mem _ hs)
    cases s with
    | token c =>
      obtain ⟨limit, v, hv⟩ := ih depth
      exact ⟨limit, c :: v, mem_spelled_token.mpr ⟨v, hv, rfl⟩⟩
    | oneOf s =>
      obtain ⟨c, hc⟩ := hk s List.mem_cons_self
      obtain ⟨limit, v, hv⟩ := ih depth
      exact ⟨limit, c :: v, mem_spelled_oneOf.mpr ⟨c, hc, v, hv, rfl⟩⟩
    | phrase n =>
      obtain ⟨limit, v, hv⟩ := ih depth
      obtain ⟨d, u, hu⟩ := Ebnf.exists_derives (.ofPhrase n)
      refine ⟨max limit (depth + d), u ++ v, mem_spelled_phrase_iff_append.mpr ⟨u, v, ?_, ?_, rfl⟩⟩
      · exact hu.mono (by omega)
      · exact spelled_mono (le_max_left _ _) hv
    | enter =>
      obtain ⟨limit, w, hw⟩ := ih (depth + 1)
      refine ⟨max limit (depth + 1), w, mem_spelled_enter.mpr ⟨by omega, ?_⟩⟩
      exact spelled_mono (le_max_left _ _) hw
    | leave => exact ih (depth - 1)

/-! ### Productions -/

theorem mem_sum_map {α : Type} {f : α → Language Category} {l : List α} {w : List Category} :
    w ∈ (l.map f).sum ↔ ∃ a ∈ l, w ∈ f a := by
  induction l with
  | nil => simp
  | cons a l ih =>
    rw [List.map_cons, List.sum_cons, Language.mem_add, ih]
    simp

/-- The words of a listed set. -/
theorem words_ofList (cs : List Category) :
    (CategorySet.ofList cs).words = (cs.map fun c => ({[c]} : Language Category)).sum := by
  ext w
  rw [CategorySet.mem_words, mem_sum_map]
  simp only [CategorySet.contains_ofList, List.contains_iff_mem]
  exact Iff.rfl

/-- The operators and the literals, one category at a time. -/
theorem words_first :
    First.comparison.words = {[equal]} + {[notEqual]} ∧
    First.relation.words = {[less]} + ({[lessEqual]} + ({[greater]} + {[greaterEqual]})) ∧
    First.sum.words = {[plus]} + {[minus]} ∧
    First.product.words = {[mul]} + ({[div]} + {[mod]}) ∧
    First.sign.words = {[plus]} + ({[minus]} + {[kwNot]}) ∧
    First.literal.words =
      {[kwTrue]} + ({[kwFalse]} + ({[intLiteral]} + ({[charLiteral]} + {[stringLiteral]}))) := by
  simp [First.comparison, First.relation, First.sum, First.product, First.sign, First.literal,
    words_ofList]

/-- A phrase stands for what its forms stand for, as an equation between languages. -/
theorem spelled_phrase_eq_sum (limit depth : ℕ) (n : Phrase) (k : List Symbol) :
    spelled limit depth (.phrase n :: k) =
      (n.production.bodies.map fun body => spelled limit depth (body ++ k)).sum := by
  cases n
  all_goals
    simp only [spelled_phrase, Ebnf.ofPhrase, Phrase.production, Production.bodies,
      Production.always, Production.optional, List.map_cons, List.map_nil, List.nil_append,
      List.cons_append, List.sum_cons, List.sum_nil, add_zero, spelled_token, spelled_oneOf,
      spelled_enter, spelled_leave, words_first, Nat.add_sub_cancel]
  -- a repetition is one more round or nothing
  case moreNames | locals | alternatives | moreDisjuncts | moreConjuncts | moreComparisons
      | moreRelations | moreTerms | moreFactors | moreArguments =>
    conv_lhs => rw [Ebnf.language_star]
    simp [add_mul, mul_assoc, add_assoc, Ebnf.language_nonterminal _ (n := .elseIf) rfl,
      Nonterminal.rule]
  -- one level deeper, if the limit allows
  case block | expression =>
    rw [Ebnf.language_nested _ rfl]
    split
    · next h => simp [Nat.sub_eq_zero_iff_le.mp h]
    · next h =>
      have hlt : ¬ limit ≤ depth := fun hle => h (Nat.sub_eq_zero_of_le hle)
      rw [if_neg hlt, Nat.sub_sub]
      simp [Nonterminal.rule, mul_assoc]
  -- lists that have a nonterminal of their own
  case definitions =>
    rw [Ebnf.language_nonterminal _ (n := .definitionList) rfl, Nonterminal.rule]
    conv_lhs => rw [Ebnf.language_star]
    simp [add_mul, mul_assoc]
  case statements =>
    rw [Ebnf.language_nonterminal _ (n := .statementList) rfl, Nonterminal.rule]
    conv_lhs => rw [Ebnf.language_star]
    simp [add_mul, mul_assoc]
  case signed =>
    rw [Ebnf.language_nonterminal _ (n := .unary) rfl, Nonterminal.rule, Ebnf.language_seq]
    conv_lhs => rw [Ebnf.language_star]
    simp [add_mul, mul_assoc, add_assoc]
  -- phrases that look into several rules at once
  case parameters =>
    simp [add_mul, Ebnf.language_nonterminal _ (n := .parameterList) rfl, Nonterminal.rule]
  case fallback =>
    simp [add_mul, mul_assoc, Ebnf.language_nonterminal _ (n := .elseBranch) rfl, Nonterminal.rule]
  case afterName =>
    simp [add_mul, mul_assoc, Ebnf.language_nonterminal _ (n := .assignment) rfl,
      Ebnf.language_nonterminal _ (n := .callStatement) rfl, Nonterminal.rule]
  case statement =>
    simp [add_mul, mul_assoc, add_assoc, Ebnf.language_nonterminal _ (n := .statement) rfl,
      Ebnf.language_nonterminal _ (n := .increment) rfl,
      Ebnf.language_nonterminal _ (n := .decrement) rfl, Nonterminal.rule]
  case guarded | callPart | call => simp [add_mul, mul_assoc]
  case primary =>
    rw [Ebnf.language_nonterminal _ rfl]
    simp only [Nonterminal.rule, Ebnf.language_seq, Ebnf.language_alt, Ebnf.language_terminal,
      add_mul, mul_assoc]
    abel
  -- all others are given by one rule
  all_goals
    rw [Ebnf.language_nonterminal _ rfl]
    simp [Nonterminal.rule, add_mul, mul_assoc]

/-- **A phrase stands for what its forms stand for**, whatever must follow. -/
theorem mem_spelled_phrase {limit depth : ℕ} {n : Phrase} {k : List Symbol} {w : List Category} :
    w ∈ spelled limit depth (.phrase n :: k) ↔
      ∃ body ∈ n.production.bodies, w ∈ spelled limit depth (body ++ k) := by
  rw [spelled_phrase_eq_sum, mem_sum_map]

end Syntax

end Drac
