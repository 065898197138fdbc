import Drac.Proofs.Restart

/-!
# Recognizing by descent

The recognizer keeps one list of pending symbols and works on it until the end.  It can as well be taken
apart: a list of symbols is recognized by recognizing one symbol after the other, and a phrase by choosing
one of its forms by the next token and recognizing this form.  What is left out of sight between the parts
is the number of open levels, since every part closes the levels that it opens.  So a part is a function of
the cursor, and the parts of a grammar can be put together and compared.

## Main definitions

* `Recognizer` — what is done with a cursor, which never goes back.
* `Recognizer.pass`, `append`, `expecting`, `refuse`, `ifAt`, `many`, `nested` — how recognizers are made.
* `Recognizer.chain` — operands with operators between them.
* `Recognizer.symbols`, `Recognizer.phrase` — the recognizers of a list of symbols and of a phrase.
* `Parser.apply` — a recognizer at work.
* `Parser.nested` — a production one level deeper.

## Main results

* `Parser.run_append` — a run over two lists of symbols is a run over the first one and then over the
  second one.
* `Recognizer.symbols_append`, `phrase_eq_choose`, `symbols_enter_leave` — **the equations of the descent.**
* `Recognizer.phrase_eq_chain` — a phrase for operands on one level is a chain of them.
* `Parser.parse_eq_apply` — recognizing a phrase is its recognizer at work.
* `Parser.parse_eq_nested` — **a phrase that opens a level counts it up, recognizes what is inside and counts
  it down again**, whether that fails or not.
-/

namespace Drac

theorem Cursor.remaining_advance_le {σ : Type} [TokenSource σ] (c : Cursor σ) :
    c.advance.remaining ≤ c.remaining := by
  by_cases hc : c.current.isEof = true
  · rw [advance_of_isEof hc]
  · exact Nat.le_of_lt (remaining_advance_lt (by simpa using hc))

theorem Cursor.remaining_iterate_advance_le {σ : Type} [TokenSource σ] (n : ℕ) (c : Cursor σ) :
    (advance^[n] c).remaining ≤ c.remaining := by
  induction n with
  | zero => exact Nat.le_refl _
  | succ n ih =>
    rw [Function.iterate_succ_apply']
    exact Nat.le_trans (remaining_advance_le _) ih

namespace Syntax

open Category

/-! ### Runs over two lists -/

/-- Settling two lists is settling the first one, and the second one if nothing is left of the first. -/
theorem settle_append (limit : ℕ) (c : Category) (depth : ℕ) (a k : List Symbol) :
    settle limit c depth (a ++ k) =
      match settle limit c depth a with
      | .accept d => settle limit c d k
      | .shift d rest => .shift d (rest ++ k)
      | .reject cause d rest => .reject cause d (rest ++ k) := by
  obtain ⟨t, hunfolds, hdecides⟩ := exists_unfolds limit c depth a
  have hmoves : Unfolds limit c ⟨depth, a ++ k⟩ ⟨t.depth, t.pending ++ k⟩ := by
    clear hdecides
    induction hunfolds with
    | refl => exact .refl
    | tail _ hmove ih =>
      apply ih.tail
      cases hmove with
      | enter hd => exact .enter hd
      | leave => exact .leave
      | predict hbody =>
        dsimp only
        rw [List.append_assoc]
        exact .predict hbody
      | atEnd ha hc => exact .atEnd ha hc
  rw [hmoves.settle_eq]
  generalize settle limit c depth a = v at hdecides
  cases hdecides with
  | accept => rfl
  | shift ha hc => exact (Decides.shift ha hc).settle_eq
  | refuse ha => exact (Decides.refuse ha).settle_eq
  | tooDeep hd => exact (Decides.tooDeep hd).settle_eq

namespace Parser

variable {σ : Type} [TokenSource σ]

/-- A run depends on what is pending only through the verdict on the next token. -/
theorem run_congr {d : ℕ} {a k : List Symbol} {p : Parser σ}
    (h : settle p.maxDepth p.cursor.category p.depth a = settle p.maxDepth p.cursor.category d k) :
    run a p = run k { p with depth := d } := by
  cases hk : settle p.maxDepth p.cursor.category d k with
  | accept d' =>
    rw [run_of_accept (h.trans hk), run_of_accept (p := { p with depth := d }) hk]
  | shift d' rest =>
    rw [run_of_shift (h.trans hk), run_of_shift (p := { p with depth := d }) hk]
    rfl
  | reject cause d' rest =>
    rw [run_of_reject (h.trans hk), run_of_reject (p := { p with depth := d }) hk]

/-- A run over two lists of symbols is a run over the first one and, if it ends well, over the second.  This
is said of the outcome and the cursor: if the first run fails, the levels that the second list closes end as
well. -/
theorem run_append (a k : List Symbol) (p : Parser σ) :
    (run (a ++ k) p).map id cursor =
      match run a p with
      | (.ok _, q) => (run k q).map id cursor
      | (.error e, q) => (.error e, q.cursor) := by
  fun_induction run a p with
  | case1 a p d h => exact congrArg (Prod.map id cursor) (run_congr (by rw [settle_append, h]))
  | case2 a p cause d rest h =>
    have hsettle : settle p.maxDepth p.cursor.category p.depth (a ++ k) =
        .reject cause d (rest ++ k) := by
      rw [settle_append, h]
    rw [run_of_reject hsettle]
    rfl
  | case3 a p d rest h ih =>
    have hsettle : settle p.maxDepth p.cursor.category p.depth (a ++ k) = .shift d (rest ++ k) := by
      rw [settle_append, h]
    rw [run_of_shift hsettle, ih]

end Parser

/-! ### Recognizers -/

/-- What is done with a cursor: an outcome, and the cursor afterwards, which never goes back. -/
structure Recognizer (σ : Type) [TokenSource σ] where
  /-- The outcome and the cursor afterwards. -/
  run : Cursor σ → Outcome × Cursor σ
  /-- Nothing that has been passed remains. -/
  remaining_run_le : ∀ c, (run c).2.remaining ≤ c.remaining

namespace Recognizer

variable {σ : Type} [TokenSource σ]

theorem ext {r s : Recognizer σ} (h : ∀ c, r.run c = s.run c) : r = s := by
  cases r
  cases s
  congr
  exact funext h

/-- Nothing is asked for. -/
def pass : Recognizer σ := ⟨fun c => (.ok (), c), fun _ => Nat.le_refl _⟩

/-- The next token is refused: any category of a set would have fitted. -/
def refuse (s : CategorySet) : Recognizer σ :=
  ⟨fun c => (.error (.unexpectedToken (.oneOf s) c.current), c), fun _ => Nat.le_refl _⟩

/-- The next token is passed if it fits, and refused otherwise. -/
def expecting (e : Expected) : Recognizer σ where
  run c :=
    if e.contains c.category then (.ok (), c.advance)
    else (.error (.unexpectedToken e c.current), c)
  remaining_run_le c := by
    split
    · exact c.remaining_advance_le
    · exact Nat.le_refl _

/-- One recognizer, and then another one if the first ends well. -/
def append (r s : Recognizer σ) : Recognizer σ where
  run c :=
    match r.run c with
    | (.ok _, d) => s.run d
    | (.error e, d) => (.error e, d)
  remaining_run_le c := by
    have hr := r.remaining_run_le c
    split
    · next d h =>
      rw [h] at hr
      exact Nat.le_trans (s.remaining_run_le d) hr
    · next e d h =>
      rw [h] at hr
      exact hr

instance : Append (Recognizer σ) := ⟨append⟩

/-- One recognizer if the next token is in a set, and another one otherwise. -/
def ifAt (s : CategorySet) (r other : Recognizer σ) : Recognizer σ where
  run c := if s.contains c.category then r.run c else other.run c
  remaining_run_le c := by
    split
    · exact r.remaining_run_le c
    · exact other.remaining_run_le c

set_option linter.unusedVariables false in
/-- As long as the next token is in a set, it is passed and a recognizer follows.  The end of the input is
never passed. -/
def runMany (s : CategorySet) (r : Recognizer σ) (c : Cursor σ) : Outcome × Cursor σ :=
  if hc : s.contains c.category = true ∧ c.current.isEof = false then
    match h : r.run c.advance with
    | (.ok _, d) => runMany s r d
    | (.error e, d) => (.error e, d)
  else (.ok (), c)
termination_by c.remaining
decreasing_by
  have hlt := Cursor.remaining_advance_lt hc.2
  have hle := r.remaining_run_le c.advance
  rw [h] at hle
  exact Nat.lt_of_le_of_lt hle hlt

/-- As long as the next token is in a set, it is passed and a recognizer follows. -/
def many (s : CategorySet) (r : Recognizer σ) : Recognizer σ where
  run := runMany s r
  remaining_run_le c := by
    fun_induction runMany s r c with
    | case1 c hc u d h ih =>
      have hle := r.remaining_run_le c.advance
      rw [h] at hle
      exact Nat.le_trans ih (Nat.le_trans hle c.remaining_advance_le)
    | case2 c hc e d h =>
      have hle := r.remaining_run_le c.advance
      rw [h] at hle
      exact Nat.le_trans hle c.remaining_advance_le
    | case3 c hc => exact Nat.le_refl _

/-- Operands with operators of a set between them. -/
def chain (operators : CategorySet) (operand : Recognizer σ) : Recognizer σ :=
  operand ++ many operators operand

/-- A recognizer one level deeper; there is none at the limit. -/
def nested (limit depth : ℕ) (r : Recognizer σ) : Recognizer σ where
  run c := if limit ≤ depth then (.error (.maxNestingDepth limit c.current), c) else r.run c
  remaining_run_le c := by
    split
    · exact Nat.le_refl _
    · exact r.remaining_run_le c

/-! ### Putting recognizers together -/

section

variable {r s t : Recognizer σ} {a b : CategorySet} {c d : Cursor σ}

theorem append_run_of_ok {u : Unit} (h : r.run c = (.ok u, d)) : (r ++ s).run c = s.run d := by
  show (match r.run c with | (.ok _, d) => s.run d | (.error e, d) => (.error e, d)) = _
  rw [h]

theorem append_run_of_error {e : SyntaxError} (h : r.run c = (.error e, d)) :
    (r ++ s).run c = (.error e, d) := by
  show (match r.run c with | (.ok _, d) => s.run d | (.error e, d) => (.error e, d)) = _
  rw [h]

/-- What is done first is done alike if it comes to the same. -/
theorem append_run_eq {r' : Recognizer σ} (h : r.run c = r'.run d) :
    (r ++ s).run c = (r' ++ s).run d := by
  rcases hr : r'.run d with ⟨u | u, c'⟩
  · rw [append_run_of_error (h.trans hr), append_run_of_error hr]
  · rw [append_run_of_ok (h.trans hr), append_run_of_ok hr]

/-- Behind a recognizer only what is done with later cursors matters. -/
theorem append_run_congr (h : ∀ d : Cursor σ, d.remaining ≤ c.remaining → s.run d = t.run d) :
    (r ++ s).run c = (r ++ t).run c := by
  have hle := r.remaining_run_le c
  rcases hr : r.run c with ⟨u | u, d⟩
  · rw [append_run_of_error hr, append_run_of_error hr]
  · rw [hr] at hle
    rw [append_run_of_ok hr, append_run_of_ok hr, h d hle]

@[simp] theorem pass_append (r : Recognizer σ) : pass ++ r = r := rfl

@[simp] theorem append_pass (r : Recognizer σ) : r ++ pass = r := by
  apply ext
  intro c
  rcases hr : r.run c with ⟨u | u, d⟩
  · rw [append_run_of_error hr]
  · rw [append_run_of_ok hr]
    rfl

theorem append_assoc (r s t : Recognizer σ) : r ++ s ++ t = r ++ (s ++ t) := by
  apply ext
  intro c
  rcases hr : r.run c with ⟨u | u, d⟩
  · rw [append_run_of_error (append_run_of_error hr), append_run_of_error hr]
  · rw [append_run_of_ok hr]
    rcases hs : s.run d with ⟨v | v, d'⟩
    · rw [append_run_of_error hs, append_run_of_error ((append_run_of_ok hr).trans hs)]
    · rw [append_run_of_ok hs, append_run_of_ok ((append_run_of_ok hr).trans hs)]

theorem expecting_run_of_contains {e : Expected} (h : e.contains c.category = true) :
    (expecting e).run c = (.ok (), c.advance) := if_pos h

theorem ifAt_run_of_mem (h : a.contains c.category = true) : (ifAt a r s).run c = r.run c := if_pos h

theorem ifAt_run_of_notMem (h : ¬ a.contains c.category = true) : (ifAt a r s).run c = s.run c :=
  if_neg h

/-- A token of the set is passed before what is repeated. -/
theorem many_run_of_mem (h : a.contains c.category = true) (hc : c.current.isEof = false) :
    (many a r).run c = (r ++ many a r).run c.advance := by
  show runMany a r c = _
  rw [runMany, dif_pos ⟨h, hc⟩]
  rcases hr : r.run c.advance with ⟨u | u, d⟩
  · rw [append_run_of_error hr]
  · rw [append_run_of_ok hr]
    rfl

theorem many_run_of_notMem (h : ¬ (a.contains c.category = true ∧ c.current.isEof = false)) :
    (many a r).run c = (.ok (), c) := by
  show runMany a r c = _
  rw [runMany, dif_neg h]

/-- A recognizer that passes a token of a set and goes on as before repeats what is between. -/
theorem eq_many_append {more last : Recognizer σ} (heof : a.contains eof = false)
    (hmem : ∀ c, a.contains c.category = true → more.run c = (r ++ more).run c.advance)
    (hnot : ∀ c, ¬ a.contains c.category = true → more.run c = last.run c) :
    more = many a r ++ last := by
  apply ext
  intro c
  induction hn : c.remaining using Nat.strongRecOn generalizing c with
  | ind n ih =>
    by_cases hc : a.contains c.category = true
    · have hne : c.current.isEof = false := by
        by_contra hend
        have hcategory : c.category = eof := Token.isEof_iff.mp (by simpa using hend)
        rw [hcategory, heof] at hc
        cases hc
      have hlt : c.advance.remaining < n := hn ▸ Cursor.remaining_advance_lt hne
      rw [hmem c hc, append_run_eq (many_run_of_mem hc hne), append_assoc]
      apply append_run_congr
      intro d hd
      exact ih d.remaining (Nat.lt_of_le_of_lt hd hlt) d rfl
    · rw [hnot c hc, append_run_of_ok (many_run_of_notMem (fun h => hc h.1))]

/-- Between operands that are chains themselves there are operators of two sets.  Either way the token is
passed and the same operand follows. -/
theorem many_append_many : many a r ++ many b (chain a r) = many (a ∪ b) r := by
  apply ext
  intro c
  induction hn : c.remaining using Nat.strongRecOn generalizing c with
  | ind n ih =>
    have hunion : (a ∪ b).contains c.category = (a.contains c.category || b.contains c.category) :=
      CategorySet.contains_union a b _
    by_cases hne : c.current.isEof = false
    · have hlt : c.advance.remaining < n := hn ▸ Cursor.remaining_advance_lt hne
      have hrest : (r ++ (many a r ++ many b (chain a r))).run c.advance =
          (r ++ many (a ∪ b) r).run c.advance := by
        apply append_run_congr
        intro d hd
        exact ih d.remaining (Nat.lt_of_le_of_lt hd hlt) d rfl
      by_cases ha : a.contains c.category = true
      · rw [many_run_of_mem (by rw [hunion, ha, Bool.true_or]) hne, ← hrest,
          append_run_eq (many_run_of_mem ha hne), append_assoc]
      · rw [append_run_of_ok (many_run_of_notMem (fun h => ha h.1))]
        by_cases hb : b.contains c.category = true
        · rw [many_run_of_mem hb hne, many_run_of_mem (by rw [hunion, hb, Bool.or_true]) hne, ← hrest,
            chain, append_assoc]
        · rw [many_run_of_notMem (fun h => hb h.1), many_run_of_notMem]
          simp [hunion, ha, hb]
    · rw [append_run_of_ok (many_run_of_notMem (fun h => hne h.2)),
        many_run_of_notMem (fun h => hne h.2), many_run_of_notMem (fun h => hne h.2)]

/-- **Two levels of operators are one.** -/
theorem chain_chain (a b : CategorySet) (r : Recognizer σ) :
    chain b (chain a r) = chain (a ∪ b) r := by
  show (r ++ many a r) ++ many b (chain a r) = r ++ many (a ∪ b) r
  rw [append_assoc, many_append_many]

end

/-! ### The recognizers of symbols -/

section

variable (limit depth : ℕ)

/-- The recognizer of a list of symbols, with some levels open. -/
def symbols (a : List Symbol) : Recognizer σ where
  run c :=
    let r := Parser.run a ⟨c, depth, limit⟩
    (r.1, r.2.cursor)
  remaining_run_le c := by
    obtain ⟨n, -, hcursor, -, -⟩ := Parser.run_spec a ⟨c, depth, limit⟩
    dsimp only
    rw [hcursor]
    exact Cursor.remaining_iterate_advance_le n c

/-- The recognizer of a phrase, with some levels open. -/
def phrase (n : Phrase) : Recognizer σ := symbols limit depth [.phrase n]

/-- The recognizer that a production describes: the form that the next token chooses, or a refusal. -/
def choose (production : Production) : Recognizer σ :=
  production.choices.foldr (fun choice other => ifAt choice.1 (symbols limit depth choice.2) other)
    (match production.otherwise with
      | .ok body => symbols limit depth body
      | .error s => refuse s)

variable {limit depth}

/-- A list of symbols that closes the levels it opens has its recognizer at work between two cursors. -/
theorem run_eq {a : List Symbol} (ha : Nested 0 a) (c : Cursor σ) :
    Parser.run a ⟨c, depth, limit⟩ =
      (((symbols limit depth a).run c).1, ⟨((symbols limit depth a).run c).2, depth, limit⟩) := by
  have hdepth : (Parser.run a ⟨c, depth, limit⟩).2.depth = depth := Parser.depth_run ha
  have hlimit : (Parser.run a ⟨c, depth, limit⟩).2.maxDepth = limit := Parser.maxDepth_run ..
  rcases hrun : Parser.run a ⟨c, depth, limit⟩ with ⟨o, d, depth', limit'⟩
  rw [hrun] at hdepth hlimit
  cases hdepth
  cases hlimit
  simp [symbols, hrun]

theorem symbols_run_eq {a : List Symbol} {c : Cursor σ} {r : Outcome × Parser σ}
    (h : Parser.run a ⟨c, depth, limit⟩ = r) :
    (symbols limit depth a).run c = (r.1, r.2.cursor) := by
  subst h
  rfl

theorem symbols_run_of_accept {a : List Symbol} {c : Cursor σ} {d : ℕ}
    (h : settle limit c.category depth a = .accept d) : (symbols limit depth a).run c = (.ok (), c) :=
  symbols_run_eq (Parser.run_of_accept h)

theorem symbols_run_of_reject {a k : List Symbol} {c : Cursor σ} {cause : Refusal} {d : ℕ}
    (h : settle limit c.category depth a = .reject cause d k) :
    (symbols limit depth a).run c = (.error (cause.error limit c.current), c) :=
  symbols_run_eq (Parser.run_of_reject h)

theorem symbols_run_of_shift {a k : List Symbol} {c : Cursor σ}
    (h : settle limit c.category depth a = .shift depth k) :
    (symbols limit depth a).run c = (symbols limit depth k).run c.advance :=
  symbols_run_eq (Parser.run_of_shift (p := ⟨c, depth, limit⟩) h)

theorem symbols_run_congr {a k : List Symbol} {c : Cursor σ}
    (h : settle limit c.category depth a = settle limit c.category depth k) :
    (symbols limit depth a).run c = (symbols limit depth k).run c :=
  symbols_run_eq (Parser.run_congr (p := ⟨c, depth, limit⟩) h)

theorem symbols_nil : symbols limit depth [] = (pass : Recognizer σ) := by
  apply ext
  intro c
  exact symbols_run_of_accept Decides.accept.settle_eq

/-- Symbols are recognized one after the other. -/
theorem symbols_append {a : List Symbol} (ha : Nested 0 a) (k : List Symbol) :
    symbols limit depth (a ++ k) = (symbols limit depth a ++ symbols limit depth k : Recognizer σ) := by
  apply ext
  intro c
  show (Parser.run (a ++ k) ⟨c, depth, limit⟩).map id Parser.cursor = _
  rw [Parser.run_append, run_eq ha]
  rcases hr : (symbols limit depth a).run c with ⟨u | u, d⟩
  · rw [append_run_of_error hr]
  · rw [append_run_of_ok hr]
    rfl

/-- A symbol that asks for a token passes it if it fits. -/
theorem symbols_of_reads {a : Symbol} {e : Expected} (hreads : ∀ c, a.reads c = e.contains c)
    (hrefusal : ∀ c, ¬ e.contains c = true → a.refusal? c = some e) :
    symbols limit depth [a] = (expecting e : Recognizer σ) := by
  apply ext
  intro c
  by_cases he : e.contains c.category = true
  · have hfits : a.reads c.category = true := (hreads _).trans he
    rw [expecting_run_of_contains he]
    by_cases heof : c.category = eof
    · -- the end of the input is matched where it is
      have hmove : Move limit c.category ⟨depth, [a]⟩ ⟨depth, []⟩ := .atEnd (heof ▸ hfits) heof
      rw [Cursor.advance_of_isEof (Token.isEof_iff.mpr heof)]
      exact symbols_run_of_accept (hmove.settle_eq.trans Decides.accept.settle_eq)
    · rw [symbols_run_of_shift (Decides.shift hfits heof).settle_eq, symbols_nil]
      rfl
  · rw [symbols_run_of_reject (Decides.refuse (hrefusal _ he)).settle_eq]
    exact (if_neg he).symm

theorem symbols_cons_token (t : Category) (k : List Symbol) : symbols limit depth (.token t :: k) =
    (expecting (.category t) ++ symbols limit depth k : Recognizer σ) := by
  have hsingle : symbols limit depth [.token t] = (expecting (.category t) : Recognizer σ) := by
    apply symbols_of_reads
    · intro c
      rfl
    · intro c hc
      exact if_neg (by simpa [Expected.contains] using hc)
  rw [← hsingle]
  exact symbols_append (a := [.token t]) rfl k

theorem symbols_cons_oneOf (s : CategorySet) (k : List Symbol) : symbols limit depth (.oneOf s :: k) =
    (expecting (.oneOf s) ++ symbols limit depth k : Recognizer σ) := by
  have hsingle : symbols limit depth [.oneOf s] = (expecting (.oneOf s) : Recognizer σ) := by
    apply symbols_of_reads
    · intro c
      rfl
    · intro c hc
      exact if_neg hc
  rw [← hsingle]
  exact symbols_append (a := [.oneOf s]) rfl k

theorem symbols_cons_phrase (n : Phrase) (k : List Symbol) : symbols limit depth (.phrase n :: k) =
    (phrase limit depth n ++ symbols limit depth k : Recognizer σ) :=
  symbols_append (a := [.phrase n]) rfl k

theorem choose_run (production : Production) (c : Cursor σ) :
    (choose limit depth production).run c =
      match production.predict c.category with
      | .ok body => (symbols limit depth body).run c
      | .error s => (refuse s).run c := by
  rcases production with ⟨choices, otherwise⟩
  rw [Production.predict, choose]
  dsimp only
  induction choices with
  | nil => cases otherwise <;> rfl
  | cons choice choices ih =>
    rw [List.foldr_cons, List.find?_cons]
    by_cases hc : choice.1.contains c.category = true
    · rw [ifAt_run_of_mem hc, hc]
    · rw [ifAt_run_of_notMem hc, ih]
      rw [Bool.not_eq_true] at hc
      rw [hc]

/-- **A phrase is recognized by the form that the next token chooses.** -/
theorem phrase_eq_choose (n : Phrase) :
    phrase limit depth n = (choose limit depth n.production : Recognizer σ) := by
  apply ext
  intro c
  rw [choose_run]
  cases hbody : n.production.predict c.category with
  | ok body =>
    apply symbols_run_congr
    rw [settle_phrase hbody, List.append_nil]
  | error s => exact symbols_run_of_reject (settle_phrase_of_error hbody)

/-- What stands between the start and the end of a level is recognized one level deeper. -/
theorem symbols_enter_leave {a : List Symbol} (ha : Nested 0 a) :
    symbols limit depth (.enter :: a ++ [.leave]) =
      (nested limit depth (symbols limit (depth + 1) a) : Recognizer σ) := by
  apply ext
  intro c
  show _ = ite _ _ _
  by_cases hd : limit ≤ depth
  · rw [if_pos hd]
    exact symbols_run_of_reject (Decides.tooDeep hd).settle_eq
  · rw [if_neg hd]
    have hsettle : settle limit c.category depth (.enter :: a ++ [.leave]) =
        settle limit c.category (depth + 1) (a ++ [.leave]) :=
      (Move.enter (Nat.not_le.mp hd)).settle_eq
    show (Parser.run (.enter :: a ++ [.leave]) ⟨c, depth, limit⟩).map id Parser.cursor = _
    rw [Parser.run_congr (p := ⟨c, depth, limit⟩) hsettle, Parser.run_append, run_eq ha]
    rcases hr : (symbols limit (depth + 1) a).run c with ⟨u | u, d⟩
    · rfl
    · have hleave : settle limit d.category (depth + 1) [.leave] = .accept depth :=
        Move.leave.settle_eq.trans Decides.accept.settle_eq
      dsimp only
      rw [Parser.run_of_accept (p := ⟨d, depth + 1, limit⟩) hleave]
      rfl

/-! ### Chains -/

/-- A phrase for any number of further operands repeats them: `a` is the operator in front of each, and
`e` what is expected there. -/
theorem phrase_eq_many {more operand : Phrase} {operators : CategorySet} {a : Symbol} {e : Expected}
    (hmore : more.production = .optional operators [a, .phrase operand, .phrase more])
    (ha : ∀ k, symbols limit depth (a :: k) = (expecting e ++ symbols limit depth k : Recognizer σ))
    (he : ∀ c, operators.contains c = e.contains c) (heof : operators.contains eof = false) :
    phrase limit depth more = (many operators (phrase limit depth operand) : Recognizer σ) := by
  have hbody : symbols limit depth [a, .phrase operand, .phrase more] =
      (expecting e ++ (phrase limit depth operand ++ phrase limit depth more) : Recognizer σ) := by
    rw [ha, symbols_cons_phrase]
    rfl
  have hchoose : (phrase limit depth more : Recognizer σ) = ifAt operators
      (expecting e ++ (phrase limit depth operand ++ phrase limit depth more)) pass := by
    rw [← hbody, ← symbols_nil, phrase_eq_choose, hmore]
    rfl
  rw [← append_pass (many operators (phrase limit depth operand))]
  apply eq_many_append heof
  · intro c hc
    have hfits : e.contains c.category = true := (he _).symm.trans hc
    conv => lhs; rw [hchoose]
    rw [ifAt_run_of_mem hc, append_run_of_ok (expecting_run_of_contains hfits)]
  · intro c hc
    conv => lhs; rw [hchoose]
    exact ifAt_run_of_notMem hc

/-- A phrase for operands on one level is a chain of them. -/
theorem phrase_eq_chain {whole more operand : Phrase} {operators : CategorySet} {a : Symbol}
    {e : Expected} (hwhole : whole.production = .always [.phrase operand, .phrase more])
    (hmore : more.production = .optional operators [a, .phrase operand, .phrase more])
    (ha : ∀ k, symbols limit depth (a :: k) = (expecting e ++ symbols limit depth k : Recognizer σ))
    (he : ∀ c, operators.contains c = e.contains c) (heof : operators.contains eof = false) :
    phrase limit depth whole = (chain operators (phrase limit depth operand) : Recognizer σ) := by
  rw [chain, ← phrase_eq_many hmore ha he heof, phrase_eq_choose, hwhole]
  exact symbols_cons_phrase operand [.phrase more]

end

end Recognizer

/-! ### Recognizers at work -/

namespace Parser

variable {σ : Type} [TokenSource σ]

/-- A recognizer at work: the levels that are open stay as they are. -/
def apply (p : Parser σ) (r : Recognizer σ) : Outcome × Parser σ :=
  ((r.run p.cursor).1, { p with cursor := (r.run p.cursor).2 })

/-- Recognizing a phrase is its recognizer at work. -/
theorem parse_eq_apply (n : Phrase) (p : Parser σ) :
    p.parse n = p.apply (Recognizer.phrase p.maxDepth p.depth n) :=
  Recognizer.run_eq (a := [.phrase n]) rfl p.cursor

/-- A production one level deeper.  The level starts, unless there are as many as may be, and it ends again
whatever the production comes to. -/
def nested (production : Parser σ → Outcome × Parser σ) (p : Parser σ) : Outcome × Parser σ :=
  if p.maxDepth ≤ p.depth then (.error (.maxNestingDepth p.maxDepth p.cursor.current), p)
  else (production { p with depth := p.depth + 1 }).map id fun q => { q with depth := q.depth - 1 }

/-- Between the start and the end of a level there is a production one level deeper. -/
theorem run_enter_leave {a : List Symbol} (ha : Nested 0 a) (p : Parser σ) :
    run (.enter :: a ++ [.leave]) p = p.nested (run a) := by
  have hleave : Nested 1 [.leave] := ⟨Nat.one_pos, rfl⟩
  have hall : Nested 0 (.enter :: a ++ [.leave]) := by
    show Nested 1 (a ++ [.leave])
    exact ha.append hleave
  rw [nested]
  by_cases hd : p.maxDepth ≤ p.depth
  · have hsettle : settle p.maxDepth p.cursor.category p.depth (.enter :: a ++ [.leave]) =
        .reject .tooDeep p.depth (.enter :: a ++ [.leave]) :=
      (Decides.tooDeep hd).settle_eq
    rw [if_pos hd, run_of_reject hsettle, hall.closes_eq]
    rfl
  · let within : Recognizer σ := Recognizer.symbols p.maxDepth (p.depth + 1) a
    have hwithin : (Recognizer.symbols p.maxDepth p.depth (.enter :: a ++ [.leave])).run p.cursor =
        within.run p.cursor := by
      rw [Recognizer.symbols_enter_leave ha]
      exact if_neg hd
    -- either way the outcome and the cursor are those of what is inside, and the level has ended
    have hwhole : run (.enter :: a ++ [.leave]) p =
        ((within.run p.cursor).1, { p with cursor := (within.run p.cursor).2 }) := by
      rw [← hwithin]
      exact Recognizer.run_eq hall p.cursor
    have hinside : run a { p with depth := p.depth + 1 } =
        ((within.run p.cursor).1, ⟨(within.run p.cursor).2, p.depth + 1, p.maxDepth⟩) :=
      Recognizer.run_eq ha p.cursor
    rw [if_neg hd, hwhole, hinside]
    rfl

/-- **A phrase that opens a level counts it up, recognizes what is inside and counts it down again**, whether
that fails or not. -/
theorem parse_eq_nested {n : Phrase} {a : List Symbol}
    (hn : n.production = .always (.enter :: a ++ [.leave])) (ha : Nested 0 a) (p : Parser σ) :
    p.parse n = p.nested (run a) := by
  have hbody : n.production.predict p.cursor.category = .ok (.enter :: a ++ [.leave]) := by
    rw [hn]
    rfl
  rw [← run_enter_leave ha]
  apply run_congr
  rw [settle_phrase hbody, List.append_nil]

example (p : Parser σ) : p.parse .expression = p.nested (parse .disjunction) :=
  parse_eq_nested (a := [.phrase .disjunction]) rfl rfl p

end Parser

end Syntax

end Drac
