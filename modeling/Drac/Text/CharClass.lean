/-!
# Sets of characters

A property of characters that comes from the Unicode Character Database is kept as the lengths of
the runs of code points that alternately lack and have it.

## Main definitions

* `CharClass`, `CharClass.contains` — a set of characters and its membership test.
-/

namespace Drac.Text

/-- A set of characters: the lengths of the runs of code points, in ascending order, that lie
outside and inside by turns, the first run outside.  The last state holds for all that follows. -/
structure CharClass where
  /-- The lengths of the runs. -/
  runs : List Nat

namespace CharClass

/-- Whether the code point `n` places after the start of the runs is inside, where `inside` is the
state of the first run. -/
def inRuns (inside : Bool) : List Nat → Nat → Bool
  | [], _ => inside
  | r :: rs, n => if n < r then inside else inRuns (!inside) rs (n - r)

/-- Whether a character is in the set. -/
def contains (k : CharClass) (c : Char) : Bool := inRuns false k.runs c.toNat

end CharClass

end Drac.Text
