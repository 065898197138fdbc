import Drac.Proofs.Descent

/-!
# Operators without levels

The grammar has six levels of operators between operands, each with a loop of its own, and signs in front
of an operand.  Since no tree is built the levels make no difference: which operator follows which operand
does not matter to what may stand between them.  So an expression can as well be read in one loop, with the
operators of all levels between the operands.  The same holds inside: in brackets, in lists and among the
arguments of a function.

## Main definitions

* `First.operator` — the operators of all levels.
* `Recognizer.operand`, `Recognizer.flat` — an operand with signs in front, and operands with operators
  between them.
* `Recognizer.primary` — an operand without signs, by the expressions in it.
* `Recognizer.scan` — expressions in one loop, inside and outside of operands.

## Main results

* `Recognizer.phrase_disjunction` — the six levels are one chain.
* `Recognizer.phrase_disjunction_eq_scan` — and so are those inside.
* `Parser.parse_disjunction_eq_flat` — **the levels of operators collapse into a single loop.**
-/

namespace Drac.Syntax

open Category

/-- The operators between operands, of whatever level. -/
def First.operator : CategorySet :=
  .ofList [kwOr, kwAnd] ∪ First.comparison ∪ First.relation ∪ First.sum ∪ First.product

namespace Recognizer

variable {σ : Type} [TokenSource σ]

/-! ### One loop -/

/-- Any number of signs, and then an operand without a sign. -/
def operand (primary : Recognizer σ) : Recognizer σ := many First.sign pass ++ primary

/-- An operand and, as long as the next token is an operator of any level, that operator and another
operand. -/
def flat (primary : Recognizer σ) : Recognizer σ := chain First.operator (operand primary)

/-- The arguments of a function or the members of a list: expressions between commas, if any. -/
def arguments (expression : Recognizer σ) : Recognizer σ :=
  ifAt First.expression (chain (.ofList [comma]) expression) pass

/-- An operand without a sign: a name that may be called, a list, an expression in brackets, or a
literal. -/
def primary (expression : Recognizer σ) : Recognizer σ :=
  ifAt (.ofList [identifier])
    (expecting (.category identifier) ++
      ifAt (.ofList [openParen])
        (expecting (.category openParen) ++ arguments expression ++ expecting (.category closeParen))
        pass) <|
  ifAt (.ofList [openBracket])
    (expecting (.category openBracket) ++ arguments expression ++
      expecting (.category closeBracket)) <|
  ifAt (.ofList [openParen])
    (expecting (.category openParen) ++ expression ++ expecting (.category closeParen)) <|
  ifAt First.literal (expecting (.oneOf First.literal)) (refuse First.primary)

/-- An expression in one loop, at a level of nesting.  The expressions in its operands are one level deeper
and are read in one loop as well. -/
def scan (limit depth : ℕ) : Recognizer σ :=
  -- at the limit there is no deeper level, whatever would be read there
  flat (primary (nested limit depth (if depth < limit then scan limit (depth + 1) else pass)))
termination_by limit - depth

/-! ### Six levels -/

variable {limit depth : ℕ}

theorem phrase_signed :
    phrase limit depth .signed = (operand (phrase limit depth .primary) : Recognizer σ) := by
  have hbody : symbols limit depth [.oneOf First.sign, .phrase .signed] =
      (expecting (.oneOf First.sign) ++ phrase limit depth .signed : Recognizer σ) :=
    symbols_cons_oneOf ..
  have hchoose : (phrase limit depth .signed : Recognizer σ) = ifAt First.sign
      (expecting (.oneOf First.sign) ++ phrase limit depth .signed) (phrase limit depth .primary) := by
    rw [← hbody, phrase_eq_choose]
    rfl
  apply eq_many_append (by decide)
  · intro c hc
    have hfits : (Expected.oneOf First.sign).contains c.category = true := hc
    conv => lhs; rw [hchoose]
    rw [ifAt_run_of_mem hc, append_run_of_ok (expecting_run_of_contains hfits), pass_append]
  · intro c hc
    conv => lhs; rw [hchoose]
    exact ifAt_run_of_notMem hc

/-- A set with one member holds what this category expects. -/
theorem contains_ofList_singleton (a c : Category) :
    (CategorySet.ofList [a]).contains c = (Expected.category a).contains c := by
  rw [CategorySet.contains_ofList, Expected.contains, List.contains_cons, List.contains_nil,
    Bool.or_false, BEq.comm]

/-- A level with one operator. -/
theorem phrase_eq_chain_token {whole more operand : Phrase} {t : Category}
    (hwhole : whole.production = .always [.phrase operand, .phrase more])
    (hmore : more.production = .optional (.ofList [t]) [.token t, .phrase operand, .phrase more])
    (ht : t ≠ eof) :
    phrase limit depth whole = (chain (.ofList [t]) (phrase limit depth operand) : Recognizer σ) := by
  apply phrase_eq_chain hwhole hmore (symbols_cons_token t) (contains_ofList_singleton t)
  simpa [CategorySet.contains_ofList] using ht.symm

/-- A level with several operators. -/
theorem phrase_eq_chain_oneOf {whole more operand : Phrase} {s : CategorySet}
    (hwhole : whole.production = .always [.phrase operand, .phrase more])
    (hmore : more.production = .optional s [.oneOf s, .phrase operand, .phrase more])
    (hs : s.contains eof = false) :
    phrase limit depth whole = (chain s (phrase limit depth operand) : Recognizer σ) :=
  phrase_eq_chain hwhole hmore (symbols_cons_oneOf s) (fun _ => rfl) hs

/-- The six levels are one chain of operands. -/
theorem phrase_disjunction :
    phrase limit depth .disjunction = (flat (phrase limit depth .primary) : Recognizer σ) := by
  have hoperators : First.product ∪ (First.sum ∪ (First.relation ∪ (First.comparison ∪
      (.ofList [kwAnd] ∪ .ofList [kwOr])))) = First.operator := by
    apply CategorySet.ext_contains
    intro c
    cases c <;> decide
  have hor : (phrase limit depth .disjunction : Recognizer σ) =
      chain (.ofList [kwOr]) (phrase limit depth .conjunction) :=
    phrase_eq_chain_token rfl rfl (by decide)
  have hand : (phrase limit depth .conjunction : Recognizer σ) =
      chain (.ofList [kwAnd]) (phrase limit depth .comparison) :=
    phrase_eq_chain_token rfl rfl (by decide)
  have hcomparison : (phrase limit depth .comparison : Recognizer σ) =
      chain First.comparison (phrase limit depth .relation) :=
    phrase_eq_chain_oneOf rfl rfl (by decide)
  have hrelation : (phrase limit depth .relation : Recognizer σ) =
      chain First.relation (phrase limit depth .sum) :=
    phrase_eq_chain_oneOf rfl rfl (by decide)
  have hsum : (phrase limit depth .sum : Recognizer σ) =
      chain First.sum (phrase limit depth .product) :=
    phrase_eq_chain_oneOf rfl rfl (by decide)
  have hproduct : (phrase limit depth .product : Recognizer σ) =
      chain First.product (phrase limit depth .signed) :=
    phrase_eq_chain_oneOf rfl rfl (by decide)
  rw [hor, hand, hcomparison, hrelation, hsum, hproduct, phrase_signed, chain_chain, chain_chain,
    chain_chain, chain_chain, chain_chain, hoperators, flat]

/-! ### Inside of operands -/

theorem phrase_expression : phrase limit depth .expression =
    (nested limit depth (phrase limit (depth + 1) .disjunction) : Recognizer σ) := by
  rw [phrase_eq_choose]
  exact symbols_enter_leave (a := [.phrase .disjunction]) rfl

theorem phrase_arguments : phrase limit depth .arguments =
    (arguments (phrase limit depth .expression) : Recognizer σ) := by
  have hmore : (phrase limit depth .moreArguments : Recognizer σ) =
      many (.ofList [comma]) (phrase limit depth .expression) :=
    phrase_eq_many rfl (symbols_cons_token comma) (contains_ofList_singleton comma) (by decide)
  have hbody : symbols limit depth [.phrase .expression, .phrase .moreArguments] =
      (chain (.ofList [comma]) (phrase limit depth .expression) : Recognizer σ) := by
    rw [symbols_cons_phrase, chain, ← hmore]
    rfl
  rw [phrase_eq_choose, arguments, ← hbody, ← symbols_nil]
  rfl

theorem phrase_call : phrase limit depth .call =
    (expecting (.category openParen) ++ arguments (phrase limit depth .expression) ++
      expecting (.category closeParen) : Recognizer σ) := by
  rw [phrase_eq_choose]
  show symbols limit depth [.token openParen, .phrase .arguments, .token closeParen] = _
  rw [symbols_cons_token, symbols_cons_phrase, symbols_cons_token, symbols_nil, append_pass,
    phrase_arguments, append_assoc]

theorem phrase_primary : phrase limit depth .primary =
    (primary (phrase limit depth .expression) : Recognizer σ) := by
  have hname : symbols limit depth [.token identifier, .phrase .callPart] =
      (expecting (.category identifier) ++
        ifAt (.ofList [openParen]) (phrase limit depth .call) pass : Recognizer σ) := by
    rw [symbols_cons_token, ← symbols_nil]
    congr 1
    exact phrase_eq_choose .callPart
  have hlist : symbols limit depth [.token openBracket, .phrase .arguments, .token closeBracket] =
      (expecting (.category openBracket) ++ arguments (phrase limit depth .expression) ++
        expecting (.category closeBracket) : Recognizer σ) := by
    rw [symbols_cons_token, symbols_cons_phrase, symbols_cons_token, symbols_nil, append_pass,
      phrase_arguments, append_assoc]
  have hbrackets : symbols limit depth [.token openParen, .phrase .expression, .token closeParen] =
      (expecting (.category openParen) ++ phrase limit depth .expression ++
        expecting (.category closeParen) : Recognizer σ) := by
    rw [symbols_cons_token, symbols_cons_phrase, symbols_cons_token, symbols_nil, append_pass,
      append_assoc]
  have hliteral : symbols limit depth [.oneOf First.literal] =
      (expecting (.oneOf First.literal) : Recognizer σ) := by
    rw [symbols_cons_oneOf, symbols_nil, append_pass]
  rw [phrase_eq_choose, primary, ← phrase_call, ← hname, ← hlist, ← hbrackets, ← hliteral]
  rfl

/-- At the limit it makes no difference what would be nested. -/
theorem nested_eq_of_le (h : limit ≤ depth) (r s : Recognizer σ) :
    nested limit depth r = nested limit depth s := by
  apply ext
  intro c
  exact (if_pos h).trans (if_pos h).symm

/-- The levels of operators collapse inside of operands as well. -/
theorem phrase_disjunction_eq_scan :
    phrase limit depth .disjunction = (scan limit depth : Recognizer σ) := by
  induction hlevels : limit - depth generalizing depth with
  | zero =>
    rw [phrase_disjunction, phrase_primary, phrase_expression, scan,
      nested_eq_of_le (Nat.le_of_sub_eq_zero hlevels)]
  | succ n ih =>
    have hdepth : depth < limit := by omega
    rw [phrase_disjunction, phrase_primary, phrase_expression, scan, if_pos hdepth, ih (by omega)]

end Recognizer

/-- **The levels of operators collapse into a single loop.**  In whatever state a recognizer is, it comes to
the same outcome and to the same state over the six levels of operators as in one loop over operands, each
with its signs, and operators of any level between them; and it makes no difference whether the expressions
inside of operands are read over the levels or in one loop again. -/
theorem Parser.parse_disjunction_eq_flat {σ : Type} [TokenSource σ] (p : Parser σ) :
    p.parse .disjunction =
        p.apply (Recognizer.flat (Recognizer.phrase p.maxDepth p.depth .primary)) ∧
      p.parse .disjunction = p.apply (Recognizer.scan p.maxDepth p.depth) := by
  rw [parse_eq_apply]
  constructor
  · rw [Recognizer.phrase_disjunction]
  · rw [Recognizer.phrase_disjunction_eq_scan]

end Drac.Syntax
