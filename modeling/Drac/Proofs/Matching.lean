import Drac.Lexer.Rule
import Mathlib.Data.List.Basic

/-!
# What a regular expression matches

A regular expression is given meaning by backtracking: the ways in which it matches at the start of
a text are listed in the order in which they are preferred, the left one of two alternatives before
the right one, one more round of a greedy repetition before none, and the other way round for a
repetition that is not greedy.  The first way is the match.

## Main definitions

* `CharSet.holds` — membership in a set of characters.
* `Pattern.rests` — what the matches of an expression leave over, the preferred one first.
* `Pattern.preferred?` — what the preferred match leaves over.

## Main results

* `Pattern.head?_rests_star_set` — a greedy repetition takes all it can.
* `Pattern.preferred?_char_append`, `Pattern.preferred?_run` — the match of the usual shapes.
-/

namespace Drac.Lexer

/-! ### Matches in order of preference -/

/-- Whether a character belongs to a part of a bracketed set. -/
def SetItem.holds : SetItem → Char → Bool
  | single a, c => c == a
  | range a b, c => a ≤ c && c ≤ b

/-- Whether a character belongs to a set. -/
def CharSet.holds : CharSet → Char → Bool
  | any, _ => true
  | sameLine, c => c != '\n'
  | blank, c => Text.isBlank c
  | oneOf items, c => items.any (·.holds c)
  | noneOf items, c => !items.any (·.holds c)

namespace Pattern

/-- What is left over after any number of rounds, each of which takes something. -/
def repeated (round : List Char → List (List Char)) (greedy : Bool) (cs : List Char) :
    List (List Char) :=
  let more := (round cs).flatMap fun rest =>
    if rest.length < cs.length then repeated round greedy rest else []
  if greedy then more ++ [cs] else cs :: more
termination_by cs.length

/-- What the matches of an expression at the start of a text leave over, the preferred match
first. -/
def rests : Pattern → List Char → List (List Char)
  | char _, [] => []
  | char a, c :: cs => if c = a then [cs] else []
  | set _, [] => []
  | set s, c :: cs => if s.holds c then [cs] else []
  | seq p q, cs => (p.rests cs).flatMap q.rests
  | alt p q, cs => p.rests cs ++ q.rests cs
  | star p, cs => repeated p.rests true cs
  | lazyStar p, cs => repeated p.rests false cs
  | plus p, cs => (p.rests cs).flatMap (repeated p.rests true)
  | times n p, cs => n.rec (fun cs => [cs]) (fun _ more cs => (p.rests cs).flatMap more) cs

/-- What the preferred match at the start of a text leaves over. -/
def preferred? (p : Pattern) (cs : List Char) : Option (List Char) := (p.rests cs).head?

/-! ### Equations -/

@[simp] theorem rests_char_nil (a : Char) : (char a).rests [] = [] := rfl

@[simp] theorem rests_char_cons (a c : Char) (cs : List Char) :
    (char a).rests (c :: cs) = if c = a then [cs] else [] := rfl

/-- A character takes itself from the front. -/
theorem rests_char (a : Char) (cs : List Char) :
    (char a).rests cs = if cs.head? = some a then [cs.drop 1] else [] := by
  cases cs <;> simp

@[simp] theorem rests_set_nil (s : CharSet) : (set s).rests [] = [] := rfl

@[simp] theorem rests_set_cons (s : CharSet) (c : Char) (cs : List Char) :
    (set s).rests (c :: cs) = if s.holds c then [cs] else [] := rfl

@[simp] theorem rests_append (p q : Pattern) (cs : List Char) :
    (p ++ q).rests cs = (p.rests cs).flatMap q.rests := rfl

@[simp] theorem rests_alt (p q : Pattern) (cs : List Char) :
    (alt p q).rests cs = p.rests cs ++ q.rests cs := rfl

@[simp] theorem rests_times_zero (p : Pattern) (cs : List Char) : (times 0 p).rests cs = [cs] := rfl

@[simp] theorem rests_times_succ (n : ℕ) (p : Pattern) (cs : List Char) :
    (times (n + 1) p).rests cs = (p.rests cs).flatMap (times n p).rests := rfl

/-- A greedy repetition prefers one more round. -/
theorem rests_star (p : Pattern) (cs : List Char) :
    (star p).rests cs = ((p.rests cs).flatMap fun rest =>
      if rest.length < cs.length then (star p).rests rest else []) ++ [cs] := by
  show repeated p.rests true cs = _
  rw [repeated]
  rfl

/-- A repetition that is not greedy prefers to stop. -/
theorem rests_lazyStar (p : Pattern) (cs : List Char) :
    (lazyStar p).rests cs = cs :: (p.rests cs).flatMap fun rest =>
      if rest.length < cs.length then (lazyStar p).rests rest else [] := by
  show repeated p.rests false cs = _
  rw [repeated]
  rfl

/-- A fixed text matches itself only. -/
theorem rests_literal (a : Char) (as cs : List Char) : (literal a as).rests cs =
    if (a :: as).isPrefixOf cs then [cs.drop (1 + as.length)] else [] := by
  induction as generalizing a cs with
  | nil =>
    cases cs with
    | nil => rfl
    | cons c cs =>
      rw [literal, rests_char_cons]
      by_cases h : a = c
      · simp [h]
      · simp [h, Ne.symm h]
  | cons b as ih =>
    rw [literal, rests_append]
    cases cs with
    | nil => rfl
    | cons c cs =>
      rw [rests_char_cons, List.isPrefixOf]
      by_cases h : a = c
      · rw [if_pos h.symm, List.flatMap_singleton, ih]
        simp [h, Nat.add_comm 1]
      · simp [h, Ne.symm h]

/-- Characters of a set, as many as there are. -/
theorem head?_rests_star_set (s : CharSet) (cs : List Char) :
    ((star (set s)).rests cs).head? = some (cs.dropWhile s.holds) := by
  induction cs with
  | nil => rw [rests_star]; rfl
  | cons c cs ih =>
    -- one more round comes first in the list, so its own first match is the first of all
    rw [rests_star, rests_set_cons, List.dropWhile_cons]
    split
    · rw [List.flatMap_singleton, if_pos (by simp), List.head?_append, ih]
      rfl
    · rfl

/-- A given number of characters of a set. -/
theorem rests_times_set (n : ℕ) (s : CharSet) (cs : List Char) : (times n (set s)).rests cs =
    if n ≤ cs.length ∧ (cs.take n).all s.holds then [cs.drop n] else [] := by
  induction n generalizing cs with
  | zero => simp
  | succ n ih =>
    rw [rests_times_succ]
    cases cs with
    | nil => simp
    | cons c cs =>
      rw [rests_set_cons]
      split
      · next h => simp [ih, h]
      · next h => simp [h]

/-! ### Matches of the usual shapes -/

/-- A character in front. -/
theorem preferred?_char_append (a c : Char) (p : Pattern) (cs : List Char) :
    (char a ++ p).preferred? (c :: cs) = if c = a then p.preferred? cs else none := by
  rw [preferred?, rests_append, rests_char_cons]
  split
  · rw [List.flatMap_singleton]
    rfl
  · rfl

theorem take_length_takeWhile (p : Char → Bool) (cs : List Char) :
    cs.take (cs.takeWhile p).length = cs.takeWhile p :=
  (List.prefix_iff_eq_take.mp (List.takeWhile_prefix p)).symm

theorem drop_length_takeWhile (p : Char → Bool) (cs : List Char) :
    cs.drop (cs.takeWhile p).length = cs.dropWhile p := by
  induction cs with
  | nil => rfl
  | cons c cs ih =>
    rw [List.takeWhile_cons, List.dropWhile_cons]
    split
    · exact ih
    · rfl

/-- Behind the first character of what is left stands what is left behind it. -/
theorem drop_succ_of_drop_eq_cons {l cs : List Char} {n : ℕ} {c : Char} (h : l.drop n = c :: cs) :
    l.drop (n + 1) = cs := by
  rw [← List.drop_drop, h]
  rfl

/-- A character of one set and then characters of another, as many as there are. -/
theorem preferred?_run (s t : CharSet) (c : Char) (cs : List Char) :
    (set s ++ star (set t)).preferred? (c :: cs) =
      if s.holds c then some (cs.drop (cs.takeWhile t.holds).length) else none := by
  rw [preferred?, rests_append, rests_set_cons]
  split
  · rw [List.flatMap_singleton, head?_rests_star_set, drop_length_takeWhile]
  · rfl

/-- Characters of a set, at least one and as many as there are. -/
theorem preferred?_plus_set (s : CharSet) (c : Char) (cs : List Char) :
    (plus (set s)).preferred? (c :: cs) =
      if s.holds c then some (cs.drop (cs.takeWhile s.holds).length) else none :=
  preferred?_run s s c cs

end Pattern

end Drac.Lexer
