import Drac.Category
import Mathlib.Computability.Language

/-!
# The grammar on paper

The grammar of Drac as its reference writes it: an expression in extended Backus–Naur form for each
nonterminal, with options and repetitions, and no word about lookahead or about a machine.  A
derivation is counted by the levels of nesting on its paths.  An expression opens a level and so
does a block between braces, except that the braces around the body of a function are not a block.

Texts are words of categories.  The words that an expression derives form a language, and the
languages of all expressions satisfy the equations of the grammar.

## Main definitions

* `Nonterminal`, `Ebnf`, `Nonterminal.rule` — the grammar.
* `Derives d e w` — the expression `e` derives the word `w` with at most `d` levels on any path.
* `Ebnf.language` — the words that an expression derives.
* `Sentence`, `Viable` — whole programs, and how they can begin.

## Main results

* `Derives.mono` — what is derived under a limit is derived under every larger one.
* `Ebnf.language_seq`, `language_alt`, `language_star`, … — the equations of the grammar.
* `Ebnf.exists_derives` — every expression derives something.
* `eq_append_eof_of_derives_program` — the end of the input ends a program and occurs nowhere else
  in it.
-/

namespace Drac.Syntax

open Category

/-! ### Expressions and rules -/

/-- The nonterminals of the grammar. -/
inductive Nonterminal
  | program
  | definitionList
  | definition
  | variableDefinition
  | identifierList
  | functionDefinition
  | parameterList
  | statementList
  | statement
  | assignment
  | callStatement
  | increment
  | decrement
  | conditional
  | elseIf
  | elseBranch
  | whileLoop
  | doLoop
  /-- The braced part of a conditional or of a loop. -/
  | block
  | expression
  | disjunction
  | conjunction
  | comparison
  | relation
  | sum
  | product
  | unary
  | primary
  | expressionList
  deriving DecidableEq, Repr

/-- An expression in extended Backus–Naur form. -/
inductive Ebnf
  /-- One token. -/
  | terminal (c : Category)
  /-- Whatever a nonterminal stands for. -/
  | nonterminal (n : Nonterminal)
  /-- One expression after the other. -/
  | seq (e f : Ebnf)
  /-- Either of two expressions. -/
  | alt (e f : Ebnf)
  /-- An expression or nothing. -/
  | optional (e : Ebnf)
  /-- An expression any number of times. -/
  | star (e : Ebnf)
  deriving DecidableEq, Repr

namespace Ebnf

/-- One expression after the other. -/
instance : Append Ebnf := ⟨seq⟩

/-- Either of two expressions. -/
instance : OrOp Ebnf := ⟨alt⟩

/-- A category as an expression. -/
instance : Coe Category Ebnf := ⟨terminal⟩

/-- A nonterminal as an expression. -/
instance : Coe Nonterminal Ebnf := ⟨nonterminal⟩

theorem append_def (e f : Ebnf) : e ++ f = seq e f := rfl

theorem or_def (e f : Ebnf) : (e ||| f) = alt e f := rfl

end Ebnf

namespace Nonterminal

/-- The rule of each nonterminal. -/
def rule : Nonterminal → Ebnf
  | program => (definitionList : Ebnf) ++ eof
  | definitionList => .star definition
  | definition => (variableDefinition : Ebnf) ||| functionDefinition
  | variableDefinition => (kwVar : Ebnf) ++ identifierList ++ semicolon
  | identifierList => (identifier : Ebnf) ++ .star ((comma : Ebnf) ++ identifier)
  | functionDefinition =>
    (identifier : Ebnf) ++ openParen ++ .optional parameterList ++ closeParen ++
      openBrace ++ .star variableDefinition ++ statementList ++ closeBrace
  | parameterList => identifierList
  | statementList => .star statement
  | statement =>
    (identifier : Ebnf) ++ (assignment ||| callStatement) ||| increment ||| decrement |||
      conditional ||| whileLoop ||| doLoop ||| kwBreak ++ semicolon |||
      kwReturn ++ expression ++ semicolon ||| semicolon
  | assignment => (assign : Ebnf) ++ expression ++ semicolon
  | callStatement => (openParen : Ebnf) ++ expressionList ++ closeParen ++ semicolon
  | increment => (kwInc : Ebnf) ++ identifier ++ semicolon
  | decrement => (kwDec : Ebnf) ++ identifier ++ semicolon
  | conditional =>
    (kwIf : Ebnf) ++ openParen ++ expression ++ closeParen ++ block ++ .star elseIf ++
      .optional elseBranch
  | elseIf => (kwElif : Ebnf) ++ openParen ++ expression ++ closeParen ++ block
  | elseBranch => (kwElse : Ebnf) ++ block
  | whileLoop => (kwWhile : Ebnf) ++ openParen ++ expression ++ closeParen ++ block
  | doLoop =>
    (kwDo : Ebnf) ++ block ++ kwWhile ++ openParen ++ expression ++ closeParen ++ semicolon
  | block => (openBrace : Ebnf) ++ statementList ++ closeBrace
  | expression => disjunction
  | disjunction => (conjunction : Ebnf) ++ .star ((kwOr : Ebnf) ++ conjunction)
  | conjunction => (comparison : Ebnf) ++ .star ((kwAnd : Ebnf) ++ comparison)
  | comparison => (relation : Ebnf) ++ .star (((equal : Ebnf) ||| notEqual) ++ relation)
  | relation =>
    (sum : Ebnf) ++ .star (((less : Ebnf) ||| lessEqual ||| greater ||| greaterEqual) ++ sum)
  | sum => (product : Ebnf) ++ .star (((plus : Ebnf) ||| minus) ++ product)
  | product => (unary : Ebnf) ++ .star (((mul : Ebnf) ||| div ||| mod) ++ unary)
  | unary => .star ((plus : Ebnf) ||| minus ||| kwNot) ++ primary
  | primary =>
    (identifier : Ebnf) ++ .optional ((openParen : Ebnf) ++ expressionList ++ closeParen) |||
      openBracket ++ expressionList ++ closeBracket |||
      kwTrue ||| kwFalse ||| intLiteral ||| charLiteral ||| stringLiteral |||
      openParen ++ expression ++ closeParen
  | expressionList => .optional ((expression : Ebnf) ++ .star ((comma : Ebnf) ++ expression))

/-- The levels of nesting that a nonterminal opens. -/
def levels : Nonterminal → Nat
  | block | expression => 1
  | _ => 0

end Nonterminal

/-! ### Derivations -/

/-- `Derives d e w`: the expression `e` derives the word `w`, and no path from the root of the
derivation to a leaf passes more than `d` nonterminals that open a level. -/
inductive Derives : ℕ → Ebnf → List Category → Prop
  | terminal {d : ℕ} {c : Category} : Derives d c [c]
  | nonterminal {d : ℕ} {n : Nonterminal} {w : List Category} :
      n.levels ≤ d → Derives (d - n.levels) n.rule w → Derives d n w
  | seq {d : ℕ} {e f : Ebnf} {u v : List Category} :
      Derives d e u → Derives d f v → Derives d (e ++ f) (u ++ v)
  | altLeft {d : ℕ} {e f : Ebnf} {w : List Category} : Derives d e w → Derives d (e ||| f) w
  | altRight {d : ℕ} {e f : Ebnf} {w : List Category} : Derives d f w → Derives d (e ||| f) w
  | optionalNone {d : ℕ} {e : Ebnf} : Derives d (.optional e) []
  | optionalSome {d : ℕ} {e : Ebnf} {w : List Category} :
      Derives d e w → Derives d (.optional e) w
  | starNil {d : ℕ} {e : Ebnf} : Derives d (.star e) []
  | starCons {d : ℕ} {e : Ebnf} {u v : List Category} :
      Derives d e u → Derives d (.star e) v → Derives d (.star e) (u ++ v)

/-- What is derived under a limit is derived under every larger one. -/
theorem Derives.mono {d : ℕ} {e : Ebnf} {w : List Category} (h : Derives d e w) {d' : ℕ}
    (hd : d ≤ d') : Derives d' e w := by
  induction h generalizing d' with
  | terminal => exact .terminal
  | nonterminal hn _ ih => exact .nonterminal (hn.trans hd) (ih (by omega))
  | seq _ _ ihe ihf => exact .seq (ihe hd) (ihf hd)
  | altLeft _ ih => exact .altLeft (ih hd)
  | altRight _ ih => exact .altRight (ih hd)
  | optionalNone => exact .optionalNone
  | optionalSome _ ih => exact .optionalSome (ih hd)
  | starNil => exact .starNil
  | starCons _ _ ihe ihs => exact .starCons (ihe hd) (ihs hd)

/-! ### Languages -/

namespace Ebnf

/-- The words that an expression derives with at most `d` levels on any path. -/
def language (d : ℕ) (e : Ebnf) : Language Category := {w | Derives d e w}

theorem mem_language {d : ℕ} {e : Ebnf} {w : List Category} :
    w ∈ e.language d ↔ Derives d e w := Iff.rfl

@[simp] theorem language_terminal (d : ℕ) (c : Category) : language d c = {[c]} := by
  ext w
  constructor
  · rintro ⟨⟩
    rfl
  · rintro rfl
    exact .terminal

@[simp] theorem language_seq (d : ℕ) (e f : Ebnf) :
    (e ++ f).language d = e.language d * f.language d := by
  ext w
  rw [Language.mem_mul]
  constructor
  · intro h
    cases h with
    | seq he hf => exact ⟨_, he, _, hf, rfl⟩
  · rintro ⟨u, hu, v, hv, rfl⟩
    exact .seq hu hv

@[simp] theorem language_alt (d : ℕ) (e f : Ebnf) :
    (e ||| f).language d = e.language d + f.language d := by
  ext w
  rw [Language.mem_add]
  constructor
  · intro h
    cases h with
    | altLeft he => exact Or.inl he
    | altRight hf => exact Or.inr hf
  · rintro (h | h)
    · exact .altLeft h
    · exact .altRight h

@[simp] theorem language_optional (d : ℕ) (e : Ebnf) :
    (optional e).language d = e.language d + 1 := by
  ext w
  rw [Language.mem_add, Language.mem_one]
  constructor
  · intro h
    cases h with
    | optionalNone => exact Or.inr rfl
    | optionalSome he => exact Or.inl he
  · rintro (h | rfl)
    · exact .optionalSome h
    · exact .optionalNone

/-- A repetition is one more round or nothing. -/
theorem language_star (d : ℕ) (e : Ebnf) :
    (star e).language d = e.language d * (star e).language d + 1 := by
  ext w
  rw [Language.mem_add, Language.mem_mul, Language.mem_one]
  constructor
  · intro h
    cases h with
    | starNil => exact Or.inr rfl
    | starCons he hs => exact Or.inl ⟨_, he, _, hs, rfl⟩
  · rintro (⟨u, hu, v, hv, rfl⟩ | rfl)
    · exact .starCons hu hv
    · exact .starNil

/-- A nonterminal stands for its rule, below the levels that it opens. -/
theorem mem_language_nonterminal {d : ℕ} {n : Nonterminal} {w : List Category} :
    w ∈ (nonterminal n).language d ↔ n.levels ≤ d ∧ w ∈ n.rule.language (d - n.levels) := by
  constructor
  · intro h
    cases h with
    | nonterminal hn hw => exact ⟨hn, hw⟩
  · rintro ⟨hn, hw⟩
    exact .nonterminal hn hw

theorem language_nonterminal (d : ℕ) {n : Nonterminal} (hn : n.levels = 0) :
    (nonterminal n).language d = n.rule.language d := by
  ext w
  simp [mem_language_nonterminal, hn]

theorem language_nested (d : ℕ) {n : Nonterminal} (hn : n.levels = 1) :
    (nonterminal n).language d = if d = 0 then 0 else n.rule.language (d - 1) := by
  ext w
  rw [mem_language_nonterminal, hn]
  rcases d with _ | d <;> simp

end Ebnf

/-! ### Everything derives something -/

namespace Ebnf

/-- Whether an expression derives something as soon as the nonterminals in `p` do. -/
def ProductiveFrom (p : Nonterminal → Prop) : Ebnf → Prop
  | terminal _ => True
  | nonterminal n => p n
  | seq e f => e.ProductiveFrom p ∧ f.ProductiveFrom p
  | alt e f => e.ProductiveFrom p ∨ f.ProductiveFrom p
  | optional _ => True
  | star _ => True

theorem exists_derives_of_productiveFrom {p : Nonterminal → Prop}
    (hp : ∀ n, p n → ∃ d w, Derives d n w) :
    ∀ e : Ebnf, e.ProductiveFrom p → ∃ d w, Derives d e w := by
  intro e
  induction e with
  | terminal c => exact fun _ => ⟨0, [c], .terminal⟩
  | nonterminal n => exact hp n
  | seq e f ihe ihf =>
    rintro ⟨he, hf⟩
    obtain ⟨d₁, u, hu⟩ := ihe he
    obtain ⟨d₂, v, hv⟩ := ihf hf
    exact ⟨max d₁ d₂, u ++ v, .seq (hu.mono (le_max_left _ _)) (hv.mono (le_max_right _ _))⟩
  | alt e f ihe ihf =>
    rintro (he | hf)
    · obtain ⟨d, w, hw⟩ := ihe he
      exact ⟨d, w, .altLeft hw⟩
    · obtain ⟨d, w, hw⟩ := ihf hf
      exact ⟨d, w, .altRight hw⟩
  | optional e _ => exact fun _ => ⟨0, [], .optionalNone⟩
  | star e _ => exact fun _ => ⟨0, [], .starNil⟩

end Ebnf

namespace Nonterminal

/-- How far a nonterminal is from terminals, if options and repetitions are left out. -/
def height : Nonterminal → ℕ
  | identifierList | statementList | statement | increment | decrement | primary
  | expressionList | definitionList => 0
  | program | variableDefinition | parameterList | functionDefinition | callStatement | block
  | unary => 1
  | definition | elseBranch | product => 2
  | sum => 3
  | relation => 4
  | comparison => 5
  | conjunction => 6
  | disjunction => 7
  | expression => 8
  | assignment | conditional | elseIf | whileLoop | doLoop => 9

theorem productiveFrom_rule (n : Nonterminal) :
    n.rule.ProductiveFrom fun m => m.height < n.height := by
  cases n <;> simp [rule, height, Ebnf.append_def, Ebnf.or_def, Ebnf.ProductiveFrom]

/-- Every nonterminal derives something. -/
theorem exists_derives (n : Nonterminal) : ∃ d w, Derives d n w := by
  have key : ∀ h (m : Nonterminal), m.height < h → ∃ d w, Derives d m w := by
    intro h
    induction h with
    | zero => exact fun m hm => absurd hm (Nat.not_lt_zero _)
    | succ h ih =>
      intro m hm
      obtain ⟨d, w, hw⟩ := Ebnf.exists_derives_of_productiveFrom
        (fun k hk => ih k (Nat.lt_of_lt_of_le hk (Nat.le_of_lt_succ hm))) _ m.productiveFrom_rule
      refine ⟨d + m.levels, w, .nonterminal (Nat.le_add_left _ _) ?_⟩
      rwa [Nat.add_sub_cancel]
  exact key _ n (Nat.lt_succ_self _)

end Nonterminal

/-- Every expression derives something. -/
theorem Ebnf.exists_derives (e : Ebnf) : ∃ d w, Derives d e w := by
  have he : e.ProductiveFrom fun _ => True := by
    induction e <;> simp_all [Ebnf.ProductiveFrom]
  exact exists_derives_of_productiveFrom (fun n _ => n.exists_derives) e he

/-! ### Programs -/

/-- The word `w`, up to the end of the input, is a program with at most `d` levels of nesting. -/
def Sentence (d : ℕ) (w : List Category) : Prop := Derives d Nonterminal.program (w ++ [eof])

/-- Some program begins with `p`, however deeply it is nested. -/
def Viable (p : List Category) : Prop := ∃ d w, Sentence d (p ++ w)

theorem Sentence.mono {d d' : ℕ} {w : List Category} (h : Sentence d w) (hd : d ≤ d') :
    Sentence d' w := Derives.mono h hd

/-- Whether an expression names neither the end of the input nor a whole program. -/
def Ebnf.endless : Ebnf → Bool
  | terminal c => c != eof
  | nonterminal n => n != .program
  | seq e f => e.endless && f.endless
  | alt e f => e.endless && f.endless
  | optional e => e.endless
  | star e => e.endless

theorem Nonterminal.endless_rule {n : Nonterminal} (hn : n ≠ .program) : n.rule.endless = true := by
  revert hn
  cases n <;> decide

/-- The end of the input occurs in no part of a program. -/
theorem Derives.notMem_eof {d : ℕ} {e : Ebnf} {w : List Category} (h : Derives d e w)
    (he : e.endless = true) : eof ∉ w := by
  induction h with
  | terminal =>
    have hc := bne_iff_ne.mp he
    exact fun h => hc (List.mem_singleton.mp h).symm
  | nonterminal _ _ ih => exact ih (Nonterminal.endless_rule (bne_iff_ne.mp he))
  | seq _ _ ihe ihf =>
    obtain ⟨h₁, h₂⟩ := Bool.and_eq_true_iff.mp he
    exact fun h => (List.mem_append.mp h).elim (ihe h₁) (ihf h₂)
  | altLeft _ ih => exact ih (Bool.and_eq_true_iff.mp he).1
  | altRight _ ih => exact ih (Bool.and_eq_true_iff.mp he).2
  | optionalNone => exact List.not_mem_nil
  | optionalSome _ ih => exact ih he
  | starNil => exact List.not_mem_nil
  | starCons _ _ ihe ihs => exact fun h => (List.mem_append.mp h).elim (ihe he) (ihs he)

/-- A program ends with the end of the input, which occurs nowhere else in it. -/
theorem eq_append_eof_of_derives_program {d : ℕ} {w : List Category}
    (h : Derives d Nonterminal.program w) : ∃ u, w = u ++ [eof] ∧ eof ∉ u := by
  cases h with
  | nonterminal _ hw =>
    cases hw with
    | seq hu hv =>
      cases hv
      exact ⟨_, rfl, hu.notMem_eof rfl⟩

theorem Sentence.notMem_eof {d : ℕ} {w : List Category} (h : Sentence d w) : eof ∉ w := by
  obtain ⟨u, hu, hn⟩ := eq_append_eof_of_derives_program h
  obtain ⟨rfl, -⟩ := List.append_inj' hu rfl
  exact hn

/-! ### Categories that the grammar does not know -/

/-- Whether an expression names a category itself, that is, outside of the nonterminals. -/
def Ebnf.mentions (c : Category) : Ebnf → Bool
  | terminal c' => c' == c
  | nonterminal _ => false
  | seq e f => e.mentions c || f.mentions c
  | alt e f => e.mentions c || f.mentions c
  | optional e => e.mentions c
  | star e => e.mentions c

/-- A category that no rule names occurs in nothing that is derived. -/
theorem Derives.notMem_of_not_mentions {c : Category}
    (hrules : ∀ n : Nonterminal, n.rule.mentions c = false) {d : ℕ} {e : Ebnf} {w : List Category}
    (h : Derives d e w) (he : e.mentions c = false) : c ∉ w := by
  induction h with
  | terminal =>
    have hc := beq_eq_false_iff_ne.mp he
    exact fun h => hc (List.mem_singleton.mp h).symm
  | nonterminal _ _ ih => exact ih (hrules _)
  | seq _ _ ihe ihf =>
    obtain ⟨h₁, h₂⟩ := Bool.or_eq_false_iff.mp he
    exact fun h => (List.mem_append.mp h).elim (ihe h₁) (ihf h₂)
  | altLeft _ ih => exact ih (Bool.or_eq_false_iff.mp he).1
  | altRight _ ih => exact ih (Bool.or_eq_false_iff.mp he).2
  | optionalNone => exact List.not_mem_nil
  | optionalSome _ ih => exact ih he
  | starNil => exact List.not_mem_nil
  | starCons _ _ ihe ihs => exact fun h => (List.mem_append.mp h).elim (ihe he) (ihs he)

/-- No program holds a character that starts no token. -/
theorem Sentence.notMem_illegalChar {d : ℕ} {w : List Category} (h : Sentence d w) :
    illegalChar ∉ w := by
  have hrules (n : Nonterminal) : n.rule.mentions illegalChar = false := by cases n <;> decide
  exact fun hmem => h.notMem_of_not_mentions hrules rfl (List.mem_append_left _ hmem)

end Drac.Syntax
