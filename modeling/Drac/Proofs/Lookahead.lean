import Drac.Proofs.Phrases

/-!
# One token of lookahead is enough

For every expression of the grammar there is a set of categories that its words can start with, and
for every phrase a set of categories that can follow it.  Both sets together tell the forms of a
phrase apart: whatever the next token is, at most one form can be meant, and it is the form that the
table of productions predicts.

## Main definitions

* `Nonterminal.first`, `Ebnf.first` — what the words of an expression can start with.
* `startOf` — what the words of a list of pending symbols can start with.
* `Phrase.follow` — what can follow a phrase.
* `WellFormed` — pending symbols in which each phrase is followed by nothing else.

## Main results

* `start_of_mem_spelled` — the words of pending symbols start as `startOf` says.
* `wellFormed_of_mem_bodies` — each form of a phrase is well-formed.
* `predict_of_mem_bodies` — **the next token leaves no choice** between the forms of a phrase.
-/

namespace Drac

/-! ### Inclusion of sets -/

namespace CategorySet

instance : HasSubset CategorySet := ⟨fun s t => ∀ c, s.contains c = true → t.contains c = true⟩

theorem subset_def {s t : CategorySet} :
    s ⊆ t ↔ ∀ c, s.contains c = true → t.contains c = true := Iff.rfl

instance (s t : CategorySet) : Decidable (s ⊆ t) :=
  decidable_of_iff (∀ c ∈ Category.all, s.contains c = true → t.contains c = true) <| by
    simp [subset_def]

theorem mem_union {s t : CategorySet} {c : Category} :
    (s ∪ t).contains c = true ↔ s.contains c = true ∨ t.contains c = true := by
  rw [← Bool.or_eq_true, ← contains_union]
  rfl

theorem mem_ofList {cs : List Category} {c : Category} :
    (ofList cs).contains c = true ↔ c ∈ cs := by
  simp

theorem Subset.trans {s t u : CategorySet} (hst : s ⊆ t) (htu : t ⊆ u) : s ⊆ u :=
  fun c hc => htu c (hst c hc)

theorem union_subset_union_left {s t : CategorySet} (h : s ⊆ t) (u : CategorySet) :
    u ∪ s ⊆ u ∪ t := fun c hc => mem_union.mpr ((mem_union.mp hc).imp_right (h c))

end CategorySet

namespace Syntax

open Category

/-! ### What a word can start with -/

/-- Whether a nonterminal derives the empty word. -/
def Nonterminal.nullable : Nonterminal → Bool
  | definitionList | statementList | expressionList => true
  | _ => false

/-- What the words of a nonterminal can start with. -/
def Nonterminal.first : Nonterminal → CategorySet
  | program => First.definition ∪ .ofList [eof]
  | definitionList | definition => First.definition
  | variableDefinition => .ofList [kwVar]
  | identifierList | functionDefinition | parameterList => .ofList [identifier]
  | statementList | statement => First.statement
  | assignment => .ofList [assign]
  | callStatement => .ofList [openParen]
  | increment => .ofList [kwInc]
  | decrement => .ofList [kwDec]
  | conditional => .ofList [kwIf]
  | elseIf => .ofList [kwElif]
  | elseBranch => .ofList [kwElse]
  | whileLoop => .ofList [kwWhile]
  | doLoop => .ofList [kwDo]
  | block => .ofList [openBrace]
  | primary => First.primary
  | expression | disjunction | conjunction | comparison | relation | sum | product | unary
  | expressionList => First.expression

namespace Ebnf

/-- Whether an expression derives the empty word. -/
def nullable : Ebnf → Bool
  | terminal _ => false
  | nonterminal n => n.nullable
  | seq e f => e.nullable && f.nullable
  | alt e f => e.nullable || f.nullable
  | optional _ => true
  | star _ => true

/-- What the words of an expression can start with. -/
def first : Ebnf → CategorySet
  | terminal c => .ofList [c]
  | nonterminal n => n.first
  | seq e f => if e.nullable then e.first ∪ f.first else e.first
  | alt e f => e.first ∪ f.first
  | optional e => e.first
  | star e => e.first

end Ebnf

theorem Nonterminal.nullable_of_rule {n : Nonterminal} (h : n.rule.nullable = true) :
    n.nullable = true := by
  revert h
  cases n <;> decide

theorem Nonterminal.first_rule_subset (n : Nonterminal) : n.rule.first ⊆ n.first := by
  cases n <;> decide

/-- Only a nullable expression derives the empty word. -/
theorem Derives.nullable {d : ℕ} {e : Ebnf} {w : List Category} (h : Derives d e w)
    (hw : w = []) : e.nullable = true := by
  induction h with
  | terminal => cases hw
  | nonterminal _ _ ih => exact Nonterminal.nullable_of_rule (ih hw)
  | seq _ _ ihe ihf =>
    obtain ⟨hu, hv⟩ := List.append_eq_nil_iff.mp hw
    exact Bool.and_eq_true_iff.mpr ⟨ihe hu, ihf hv⟩
  | altLeft _ ih => exact Bool.or_eq_true_iff.mpr (Or.inl (ih hw))
  | altRight _ ih => exact Bool.or_eq_true_iff.mpr (Or.inr (ih hw))
  | optionalNone => rfl
  | optionalSome => rfl
  | starNil => rfl
  | starCons => rfl

/-- The words of an expression start with what it can start with. -/
theorem Derives.first {d : ℕ} {e : Ebnf} {w : List Category} (h : Derives d e w)
    {c : Category} {v : List Category} (hw : w = c :: v) : e.first.contains c = true := by
  induction h generalizing v with
  | terminal =>
    obtain ⟨rfl, -⟩ := List.cons.inj hw
    exact CategorySet.mem_ofList.mpr List.mem_cons_self
  | nonterminal _ _ ih => exact Nonterminal.first_rule_subset _ _ (ih hw)
  | @seq d e f u v he _ ihe ihf =>
    rcases List.append_eq_cons_iff.mp hw with ⟨rfl, hv⟩ | ⟨u', rfl, -⟩
    · have hn : e.nullable = true := he.nullable rfl
      show Ebnf.first (.seq e f) |>.contains c
      rw [Ebnf.first, if_pos hn]
      exact CategorySet.mem_union.mpr (Or.inr (ihf hv))
    · show Ebnf.first (.seq e f) |>.contains c
      rw [Ebnf.first]
      split
      · exact CategorySet.mem_union.mpr (Or.inl (ihe rfl))
      · exact ihe rfl
  | altLeft _ ih => exact CategorySet.mem_union.mpr (Or.inl (ih hw))
  | altRight _ ih => exact CategorySet.mem_union.mpr (Or.inr (ih hw))
  | optionalNone => cases hw
  | optionalSome _ ih => exact ih hw
  | starNil => cases hw
  | starCons _ _ ihe ihs =>
    rcases List.append_eq_cons_iff.mp hw with ⟨-, hv⟩ | ⟨u', rfl, -⟩
    · exact ihs hv
    · exact ihe rfl

/-! ### What pending symbols can start with -/

/-- What the words of a list of pending symbols can start with, if something from `after` follows
them. -/
def startOf (after : CategorySet) : List Symbol → CategorySet
  | [] => after
  | .token c :: _ => .ofList [c]
  | .oneOf s :: _ => s
  | .phrase n :: k =>
    if (Ebnf.ofPhrase n).nullable then (Ebnf.ofPhrase n).first ∪ startOf after k
    else (Ebnf.ofPhrase n).first
  | .enter :: k => startOf after k
  | .leave :: k => startOf after k

theorem startOf_append (after : CategorySet) (b k : List Symbol) :
    startOf after (b ++ k) = startOf (startOf after k) b := by
  induction b with
  | nil => rfl
  | cons s b ih => cases s <;> simp only [List.cons_append, startOf, ih]

theorem startOf_mono {after after' : CategorySet} (h : after ⊆ after') (k : List Symbol) :
    startOf after k ⊆ startOf after' k := by
  induction k with
  | nil => exact h
  | cons s k ih =>
    cases s with
    | token c => exact fun _ hc => hc
    | oneOf s => exact fun _ hc => hc
    | phrase n =>
      simp only [startOf]
      split
      · exact CategorySet.union_subset_union_left ih _
      · exact fun _ hc => hc
    | enter => exact ih
    | leave => exact ih

/-- The words of pending symbols, and what follows an empty one, start as they can. -/
theorem start_of_mem_spelled {limit depth : ℕ} {k : List Symbol} {w : List Category}
    (h : w ∈ spelled limit depth k) (after : CategorySet) :
    (w = [] → after ⊆ startOf after k) ∧
      ∀ c v, w = c :: v → (startOf after k).contains c = true := by
  induction k generalizing depth w with
  | nil =>
    obtain rfl := mem_spelled_nil.mp h
    exact ⟨fun _ _ hc => hc, fun _ _ hw => absurd hw (List.cons_ne_nil _ _).symm⟩
  | cons s k ih =>
    cases s with
    | token a =>
      obtain ⟨v, -, rfl⟩ := mem_spelled_token.mp h
      refine ⟨fun hw => absurd hw (List.cons_ne_nil _ _), fun c v hw => ?_⟩
      obtain ⟨rfl, -⟩ := List.cons.inj hw
      exact CategorySet.mem_ofList.mpr List.mem_cons_self
    | oneOf s =>
      obtain ⟨a, ha, v, -, rfl⟩ := mem_spelled_oneOf.mp h
      refine ⟨fun hw => absurd hw (List.cons_ne_nil _ _), fun c v hw => ?_⟩
      obtain ⟨rfl, -⟩ := List.cons.inj hw
      exact ha
    | phrase n =>
      obtain ⟨u, v, hu, hv, rfl⟩ := mem_spelled_phrase_iff_append.mp h
      obtain ⟨ihnil, ihcons⟩ := ih hv
      cases u with
      | nil =>
        simp only [startOf, hu.nullable rfl, if_true, List.nil_append]
        exact ⟨fun hw c hc => CategorySet.mem_union.mpr (Or.inr (ihnil hw c hc)),
          fun c v hw => CategorySet.mem_union.mpr (Or.inr (ihcons c v hw))⟩
      | cons a u =>
        refine ⟨fun hw => absurd hw (List.cons_ne_nil _ _), fun c v hw => ?_⟩
        obtain ⟨rfl, -⟩ := List.cons.inj hw
        simp only [startOf]
        split
        · exact CategorySet.mem_union.mpr (Or.inl (hu.first rfl))
        · exact hu.first rfl
    | enter => exact ih (mem_spelled_enter.mp h).2
    | leave => exact ih h

/-! ### What can follow a phrase -/

namespace Follow

/-- What can follow a statement. -/
def statement : CategorySet := First.statement ∪ .ofList [closeBrace]

/-- What can follow a definition. -/
def definition : CategorySet := First.definition ∪ .ofList [eof]

/-- What can follow an expression. -/
def expression : CategorySet := .ofList [closeParen, closeBracket, comma, semicolon]

/-- What can follow an operand of `or`. -/
def conjunction : CategorySet := expression ∪ .ofList [kwOr]

/-- What can follow an operand of `and`. -/
def comparison : CategorySet := conjunction ∪ .ofList [kwAnd]

/-- What can follow an operand of an operator of equality. -/
def relation : CategorySet := comparison ∪ First.comparison

/-- What can follow an operand of an operator of order. -/
def sum : CategorySet := relation ∪ First.relation

/-- What can follow a term. -/
def product : CategorySet := sum ∪ First.sum

/-- What can follow a factor. -/
def operand : CategorySet := product ∪ First.product

end Follow

/-- What can follow a phrase in a program. -/
def Phrase.follow : Phrase → CategorySet
  | program => .ofList [eof]
  | definitions => .ofList [eof]
  | definition | functionDefinition => Follow.definition
  | variableDefinition => Follow.definition ∪ Follow.statement ∪ .ofList [kwVar]
  | names | moreNames => .ofList [semicolon, closeParen]
  | parameters => .ofList [closeParen]
  | locals => Follow.statement
  | statements => .ofList [closeBrace]
  | statement | afterName | conditional | fallback | whileLoop | doLoop => Follow.statement
  | alternatives => Follow.statement ∪ .ofList [kwElse]
  | guarded | block => Follow.statement ∪ .ofList [kwElif, kwElse]
  | expression | disjunction | moreDisjuncts => Follow.expression
  | conjunction | moreConjuncts => Follow.conjunction
  | comparison | moreComparisons => Follow.comparison
  | relation | moreRelations => Follow.relation
  | sum | moreTerms => Follow.sum
  | product | moreFactors => Follow.product
  | signed | primary | callPart | call => Follow.operand
  | arguments | moreArguments => .ofList [closeParen, closeBracket]

/-- Pending symbols before something from `after`: each phrase among them is followed by what can
follow it, and each set asked for has a member. -/
def WellFormed (after : CategorySet) : List Symbol → Prop
  | [] => True
  | .token _ :: k => WellFormed after k
  | .oneOf s :: k => (∃ c ∈ Category.all, s.contains c = true) ∧ WellFormed after k
  | .phrase n :: k => startOf after k ⊆ n.follow ∧ WellFormed after k
  | .enter :: k => WellFormed after k
  | .leave :: k => WellFormed after k

instance WellFormed.decidable (after : CategorySet) :
    (k : List Symbol) → Decidable (WellFormed after k)
  | [] => inferInstanceAs (Decidable True)
  | .token _ :: k => WellFormed.decidable after k
  | .oneOf s :: k =>
    haveI := WellFormed.decidable after k
    inferInstanceAs (Decidable ((∃ c ∈ Category.all, s.contains c = true) ∧ WellFormed after k))
  | .phrase n :: k =>
    haveI := WellFormed.decidable after k
    inferInstanceAs (Decidable (startOf after k ⊆ n.follow ∧ WellFormed after k))
  | .enter :: k => WellFormed.decidable after k
  | .leave :: k => WellFormed.decidable after k

theorem WellFormed.mono {after after' : CategorySet} (h : after ⊆ after') {k : List Symbol}
    (hk : WellFormed after' k) : WellFormed after k := by
  induction k with
  | nil => trivial
  | cons s k ih =>
    cases s with
    | token c => exact ih hk
    | oneOf s => exact ⟨hk.1, ih hk.2⟩
    | phrase n => exact ⟨CategorySet.Subset.trans (startOf_mono h k) hk.1, ih hk.2⟩
    | enter => exact ih hk
    | leave => exact ih hk

theorem wellFormed_append {after : CategorySet} {b k : List Symbol} :
    WellFormed after (b ++ k) ↔ WellFormed (startOf after k) b ∧ WellFormed after k := by
  induction b with
  | nil => simp [WellFormed]
  | cons s b ih => cases s <;> simp only [List.cons_append, WellFormed, ih, startOf_append, and_assoc]

theorem WellFormed.exists_mem_of_oneOf {after : CategorySet} {k : List Symbol}
    (h : WellFormed after k) : ∀ s, Symbol.oneOf s ∈ k → ∃ c, s.contains c = true := by
  induction k with
  | nil => simp
  | cons a k ih =>
    intro s hs
    rcases List.mem_cons.mp hs with rfl | ht
    · obtain ⟨c, -, hc⟩ := h.1
      exact ⟨c, hc⟩
    · cases a with
      | token c => exact ih h s ht
      | oneOf t => exact ih h.2 s ht
      | phrase n => exact ih h.2 s ht
      | enter => exact ih h s ht
      | leave => exact ih h s ht

/-! ### The table of productions -/

/-- In each form of a phrase every part is followed by what can follow it. -/
theorem wellFormed_of_mem_bodies {n : Phrase} {body : List Symbol} (h : body ∈ n.production.bodies) :
    WellFormed n.follow body := by
  revert body
  cases n <;> decide

/-- **The next token leaves no choice**: the form that can start with it is the predicted one. -/
theorem predict_of_mem_bodies {n : Phrase} {body : List Symbol} (h : body ∈ n.production.bodies)
    {c : Category} (hc : (startOf n.follow body).contains c = true) :
    n.production.predict c = .ok body := by
  have key : ∀ body ∈ n.production.bodies, ∀ c ∈ Category.all,
      (startOf n.follow body).contains c = true → n.production.predict c = .ok body := by
    cases n <;> decide +kernel
  exact key body h c (Category.mem_all c) hc

end Syntax

end Drac
