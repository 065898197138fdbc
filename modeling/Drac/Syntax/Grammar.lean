import Drac.Syntax.First

/-!
# The grammar of Drac

The grammar is a table.  Each phrase has a production: a list of choices, of which the first is
taken whose set holds the next token, and what to do if none does.  One token of lookahead is
enough to choose.  Repetitions are phrases of their own: `moreNames` stands for any number of
names, each after a comma.

## Main definitions

* `Phrase`, `Symbol` — the phrases, and what a production consists of.
* `Production`, `Phrase.production` — the choices of a phrase.
* `Production.predict` — the choice that the next token makes.

## Main results

* `Symbol.weight_append`, `Phrase.weight_lt_rank` — choosing cannot go on for ever without a token
  being read: each choice for a phrase starts with less than the phrase itself.
-/

namespace Drac.Syntax

/-- The phrases of the language. -/
inductive Phrase
  /-- A whole source. -/
  | program
  /-- Any number of definitions. -/
  | definitions
  /-- A definition of variables or of a function. -/
  | definition
  /-- A definition of variables. -/
  | variableDefinition
  /-- One name or more, between commas. -/
  | names
  /-- Any number of further names. -/
  | moreNames
  /-- A definition of a function. -/
  | functionDefinition
  /-- The parameters of a function, if it has any. -/
  | parameters
  /-- The definitions of variables at the start of a function. -/
  | locals
  /-- Any number of statements. -/
  | statements
  /-- A statement. -/
  | statement
  /-- The rest of a statement that starts with a name. -/
  | afterName
  /-- A conditional statement. -/
  | conditional
  /-- Any number of further conditions. -/
  | alternatives
  /-- What is done if no condition holds. -/
  | fallback
  /-- A loop with its condition in front. -/
  | whileLoop
  /-- A loop with its condition at the end. -/
  | doLoop
  /-- A condition and the block that depends on it. -/
  | guarded
  /-- Statements between braces, one level of nesting deeper. -/
  | block
  /-- An expression, one level of nesting deeper. -/
  | expression
  /-- Operands of `or`. -/
  | disjunction
  /-- Any number of further operands of `or`. -/
  | moreDisjuncts
  /-- Operands of `and`. -/
  | conjunction
  /-- Any number of further operands of `and`. -/
  | moreConjuncts
  /-- Operands of the operators of equality. -/
  | comparison
  /-- Any number of further operands of the operators of equality. -/
  | moreComparisons
  /-- Operands of the operators of order. -/
  | relation
  /-- Any number of further operands of the operators of order. -/
  | moreRelations
  /-- Terms. -/
  | sum
  /-- Any number of further terms. -/
  | moreTerms
  /-- Factors. -/
  | product
  /-- Any number of further factors. -/
  | moreFactors
  /-- An operand after any number of signs. -/
  | signed
  /-- An operand. -/
  | primary
  /-- The arguments of a function, if a name is called. -/
  | callPart
  /-- The arguments of a function. -/
  | call
  /-- Any number of expressions between commas. -/
  | arguments
  /-- Any number of further expressions. -/
  | moreArguments
  deriving DecidableEq, Repr

/-- A part of a production. -/
inductive Symbol
  /-- A token of one category. -/
  | token (c : Category)
  /-- A token of any category of a set. -/
  | oneOf (s : CategorySet)
  /-- A phrase. -/
  | phrase (n : Phrase)
  /-- One level of nesting starts; the limit is checked here. -/
  | enter
  /-- One level of nesting ends. -/
  | leave
  deriving DecidableEq, Repr

/-- How a phrase goes on, depending on the next token. -/
structure Production where
  /-- What follows if the next token is in a set; earlier sets win. -/
  choices : List (CategorySet × List Symbol)
  /-- What follows otherwise: what would have fitted, if nothing can follow. -/
  otherwise : Except CategorySet (List Symbol)

namespace Production

/-- A phrase with a single form. -/
def always (body : List Symbol) : Production := ⟨[], .ok body⟩

/-- A phrase that is left out unless the next token is in a set. -/
def optional (first : CategorySet) (body : List Symbol) : Production := ⟨[(first, body)], .ok []⟩

/-- The form that the next token chooses. -/
def predict (p : Production) (lookahead : Category) : Except CategorySet (List Symbol) :=
  match p.choices.find? fun choice => choice.1.contains lookahead with
  | some choice => .ok choice.2
  | none => p.otherwise

/-- All forms. -/
def bodies (p : Production) : List (List Symbol) :=
  p.choices.map Prod.snd ++
    match p.otherwise with
    | .ok body => [body]
    | .error _ => []

theorem mem_bodies_of_predict {p : Production} {c : Category} {body : List Symbol}
    (h : p.predict c = .ok body) : body ∈ p.bodies := by
  unfold predict at h
  split at h
  next choice hc =>
    cases h
    exact List.mem_append_left _ (List.mem_map_of_mem (List.mem_of_find?_eq_some hc))
  next => simp [bodies, h]

end Production

open Category in
/-- The production of each phrase. -/
def Phrase.production : Phrase → Production
  | program => .always [.phrase definitions, .token eof]
  | definitions => .optional First.definition [.phrase definition, .phrase definitions]
  | definition =>
    ⟨[(.ofList [kwVar], [.phrase variableDefinition]),
      (.ofList [identifier], [.phrase functionDefinition])],
      .error First.definition⟩
  | variableDefinition => .always [.token kwVar, .phrase names, .token semicolon]
  | names => .always [.token identifier, .phrase moreNames]
  | moreNames => .optional (.ofList [comma]) [.token comma, .token identifier, .phrase moreNames]
  | functionDefinition => .always
    [.token identifier, .token openParen, .phrase parameters, .token closeParen, .token openBrace,
      .phrase locals, .phrase statements, .token closeBrace]
  | parameters => .optional (.ofList [identifier]) [.phrase names]
  | locals => .optional (.ofList [kwVar]) [.phrase variableDefinition, .phrase locals]
  | statements => .optional First.statement [.phrase statement, .phrase statements]
  | statement =>
    ⟨[(.ofList [identifier], [.token identifier, .phrase afterName]),
        (.ofList [kwInc], [.token kwInc, .token identifier, .token semicolon]),
        (.ofList [kwDec], [.token kwDec, .token identifier, .token semicolon]),
        (.ofList [kwIf], [.phrase conditional]),
        (.ofList [kwWhile], [.phrase whileLoop]),
        (.ofList [kwDo], [.phrase doLoop]),
        (.ofList [kwBreak], [.token kwBreak, .token semicolon]),
        (.ofList [kwReturn], [.token kwReturn, .phrase expression, .token semicolon]),
        (.ofList [semicolon], [.token semicolon])],
      .error First.statement⟩
  | afterName =>
    ⟨[(.ofList [assign], [.token assign, .phrase expression, .token semicolon]),
        (.ofList [openParen], [.phrase call, .token semicolon])],
      .error First.statement⟩
  | conditional => .always
    [.token kwIf, .phrase guarded, .phrase alternatives, .phrase fallback]
  | alternatives => .optional (.ofList [kwElif])
    [.token kwElif, .phrase guarded, .phrase alternatives]
  | fallback => .optional (.ofList [kwElse]) [.token kwElse, .phrase block]
  | whileLoop => .always [.token kwWhile, .phrase guarded]
  | doLoop => .always
    [.token kwDo, .phrase block, .token kwWhile, .token openParen, .phrase expression,
      .token closeParen, .token semicolon]
  | guarded => .always
    [.token openParen, .phrase expression, .token closeParen, .phrase block]
  | block => .always
    [.enter, .token openBrace, .phrase statements, .token closeBrace, .leave]
  | expression => .always [.enter, .phrase disjunction, .leave]
  | disjunction => .always [.phrase conjunction, .phrase moreDisjuncts]
  | moreDisjuncts => .optional (.ofList [kwOr])
    [.token kwOr, .phrase conjunction, .phrase moreDisjuncts]
  | conjunction => .always [.phrase comparison, .phrase moreConjuncts]
  | moreConjuncts => .optional (.ofList [kwAnd])
    [.token kwAnd, .phrase comparison, .phrase moreConjuncts]
  | comparison => .always [.phrase relation, .phrase moreComparisons]
  | moreComparisons => .optional First.comparison
    [.oneOf First.comparison, .phrase relation, .phrase moreComparisons]
  | relation => .always [.phrase sum, .phrase moreRelations]
  | moreRelations => .optional First.relation
    [.oneOf First.relation, .phrase sum, .phrase moreRelations]
  | sum => .always [.phrase product, .phrase moreTerms]
  | moreTerms => .optional First.sum [.oneOf First.sum, .phrase product, .phrase moreTerms]
  | product => .always [.phrase signed, .phrase moreFactors]
  | moreFactors => .optional First.product
    [.oneOf First.product, .phrase signed, .phrase moreFactors]
  | signed => ⟨[(First.sign, [.oneOf First.sign, .phrase signed])], .ok [.phrase primary]⟩
  | primary =>
    ⟨[(.ofList [identifier], [.token identifier, .phrase callPart]),
        (.ofList [openBracket],
          [.token openBracket, .phrase arguments, .token closeBracket]),
        (.ofList [openParen], [.token openParen, .phrase expression, .token closeParen]),
        (First.literal, [.oneOf First.literal])],
      .error First.primary⟩
  | callPart => .optional (.ofList [openParen]) [.phrase call]
  | call => .always [.token openParen, .phrase arguments, .token closeParen]
  | arguments => .optional First.expression [.phrase expression, .phrase moreArguments]
  | moreArguments => .optional (.ofList [comma])
    [.token comma, .phrase expression, .phrase moreArguments]

/-! ### Choosing ends -/

namespace Phrase

/-- Whether a phrase can be passed without a token being read.  The end of the input is matched
without being passed, so a program counts. -/
def nullable : Phrase → Bool
  | program | definitions | moreNames | parameters | locals | statements | alternatives | fallback
  | moreDisjuncts | moreConjuncts | moreComparisons | moreRelations | moreTerms | moreFactors
  | callPart | arguments | moreArguments => true
  | _ => false

/-- The number of choices that can be needed for a phrase before a token is read, counted
generously. -/
def rank : Phrase → Nat
  | variableDefinition | names | moreNames | functionDefinition | conditional | alternatives
  | fallback | whileLoop | doLoop | guarded | moreDisjuncts | moreConjuncts | moreComparisons
  | moreRelations | moreTerms | moreFactors | primary | call | moreArguments => 2
  | definition | parameters | locals | statement | afterName | block | signed | callPart => 3
  | definitions | statements | product => 4
  | sum => 5
  | program | relation => 6
  | comparison => 7
  | conjunction => 8
  | disjunction => 9
  | expression => 11
  | arguments => 12

end Phrase

namespace Symbol

/-- Whether a symbol can be passed without a token being read. -/
def passable : Symbol → Bool
  | token c => c == .eof
  | oneOf s => s.contains .eof
  | phrase n => n.nullable
  | enter => true
  | leave => true

/-- The rank of a symbol: one for everything but a phrase. -/
def rank : Symbol → Nat
  | phrase n => n.rank
  | _ => 1

/-- The ranks of the symbols up to the first one that reads a token. -/
def weight : List Symbol → Nat
  | [] => 0
  | s :: k => s.rank + if s.passable then weight k else 0

theorem weight_append (b k : List Symbol) :
    weight (b ++ k) = weight b + if b.all passable then weight k else 0 := by
  induction b with
  | nil => simp [weight]
  | cons s b ih =>
    simp only [List.cons_append, weight, ih, List.all_cons]
    by_cases hs : s.passable = true
    · simp only [hs, if_true, Bool.true_and]
      omega
    · simp [hs]

end Symbol

namespace Phrase

/-- Each form of a phrase weighs less than the phrase, and can be passed only if the phrase can. -/
theorem weight_lt_rank {n : Phrase} {body : List Symbol} (h : body ∈ n.production.bodies) :
    Symbol.weight body < n.rank ∧ (body.all Symbol.passable = true → n.nullable = true) := by
  have key : ∀ b ∈ n.production.bodies,
      Symbol.weight b < n.rank ∧ (b.all Symbol.passable = true → n.nullable = true) := by
    cases n <;> decide
  exact key body h

/-- The form that is chosen for a phrase weighs less than the phrase, whatever follows. -/
theorem weight_predict_lt {n : Phrase} {c : Category} {body : List Symbol}
    (h : n.production.predict c = .ok body) (k : List Symbol) :
    Symbol.weight (body ++ k) < Symbol.weight (.phrase n :: k) := by
  obtain ⟨lt, pass⟩ := weight_lt_rank (Production.mem_bodies_of_predict h)
  rw [Symbol.weight_append]
  simp only [Symbol.weight, Symbol.rank, Symbol.passable]
  cases hb : body.all Symbol.passable with
  | true => simp [pass hb]; omega
  | false => simp; omega

end Phrase

end Drac.Syntax
