import Drac.Category

/-!
# Sets of categories

A set of categories is a machine word with one bit for each category.  No other bit is ever set, so two sets
with the same members are the same value, and the members can be counted by the bits.

## Main definitions

* `CategorySet`, `CategorySet.contains` — a set and its membership test.
* `CategorySet.empty`, `insert`, `ofList`, `union` — how sets are made.
* `CategorySet.members`, `size`, `isEmpty` — the members in declaration order, and how many.
* `CategorySet.display` — the members between braces.

## Main results

* `contains_empty`, `contains_insert`, `contains_ofList`, `contains_union` — one equation for each
  way to make a set.
* `CategorySet.ext_contains` — sets with the same members are equal.
-/

namespace Drac

/-- A set of categories: the bit at a category's index says whether it is a member. -/
structure CategorySet where
  /-- A machine word, which begins with one bit for each category. -/
  bits : BitVec 64
  /-- No bit is set behind those of the categories. -/
  bits_bounded : ∀ i, Category.count ≤ i → bits.getLsbD i = false
  deriving DecidableEq, Repr

namespace CategorySet

/-- Whether a category is a member. -/
def contains (s : CategorySet) (c : Category) : Bool := s.bits.getLsbD c.index

/-- Sets with the same members are equal. -/
theorem ext_contains {s t : CategorySet} (h : ∀ c, s.contains c = t.contains c) : s = t := by
  have hbits : s.bits = t.bits := by
    apply BitVec.eq_of_getLsbD_eq
    intro i _
    by_cases hi : i < Category.count
    · obtain ⟨c, rfl⟩ := Category.exists_index_eq hi
      exact h c
    · rw [s.bits_bounded i (Nat.not_lt.mp hi), t.bits_bounded i (Nat.not_lt.mp hi)]
  cases s
  cases t
  cases hbits
  rfl

/-- The set with no member. -/
def empty : CategorySet := ⟨BitVec.ofNat _ 0, fun _ _ => BitVec.getLsbD_zero⟩

instance : EmptyCollection CategorySet := ⟨empty⟩

instance : Inhabited CategorySet := ⟨empty⟩

/-- The bit of a category is set at its index only. -/
theorem getLsbD_twoPow_index (c : Category) (i : Nat) :
    (BitVec.twoPow 64 c.index).getLsbD i = decide (c.index = i) := by
  have hc : c.index < 64 := Nat.lt_trans c.index_lt (by decide)
  rw [BitVec.getLsbD_twoPow, decide_eq_true hc, Bool.true_and]

/-- A set and one more member. -/
def insert (s : CategorySet) (c : Category) : CategorySet where
  bits := s.bits ||| BitVec.twoPow 64 c.index
  bits_bounded i hi := by
    have hne : c.index ≠ i := Nat.ne_of_lt (Nat.lt_of_lt_of_le c.index_lt hi)
    rw [BitVec.getLsbD_or, s.bits_bounded i hi, getLsbD_twoPow_index, decide_eq_false hne]
    rfl

/-- The members of either of two sets. -/
def union (s t : CategorySet) : CategorySet where
  bits := s.bits ||| t.bits
  bits_bounded i hi := by
    rw [BitVec.getLsbD_or, s.bits_bounded i hi, t.bits_bounded i hi]
    rfl

instance : Union CategorySet := ⟨union⟩

/-- The set of the listed categories; order and repetition do not matter. -/
def ofList (cs : List Category) : CategorySet := cs.foldl insert empty

@[simp] theorem contains_empty (c : Category) : empty.contains c = false := BitVec.getLsbD_zero

@[simp] theorem contains_insert (s : CategorySet) (c d : Category) :
    (s.insert c).contains d = (s.contains d || c == d) := by
  have hindex : decide (c.index = d.index) = (c == d) := decide_eq_decide.mpr Category.index_inj
  rw [contains, insert, BitVec.getLsbD_or, getLsbD_twoPow_index, hindex, contains]

@[simp] theorem contains_union (s t : CategorySet) (c : Category) :
    (s.union t).contains c = (s.contains c || t.contains c) := by
  simp [contains, union]

theorem contains_foldl_insert (cs : List Category) (s : CategorySet) (c : Category) :
    (cs.foldl insert s).contains c = (s.contains c || cs.contains c) := by
  induction cs generalizing s with
  | nil => simp
  | cons d cs ih =>
    rw [List.foldl_cons, ih, contains_insert, List.contains_cons, Bool.or_assoc]
    rw [show (d == c) = (c == d) from BEq.comm]

@[simp] theorem contains_ofList (cs : List Category) (c : Category) :
    (ofList cs).contains c = cs.contains c := by
  simp [ofList, contains_foldl_insert]

/-- The members in declaration order. -/
def members (s : CategorySet) : List Category := Category.all.filter s.contains

@[simp] theorem mem_members {s : CategorySet} {c : Category} : c ∈ s.members ↔ s.contains c := by
  simp [members]

/-- The number of members, which is the number of bits that are set. -/
def size (s : CategorySet) : Nat := s.bits.cpop.toNat

/-- Whether there is no member. -/
def isEmpty (s : CategorySet) : Bool := s.bits == BitVec.ofNat _ 0

/-- The names of the members in declaration order, between braces. -/
def display (s : CategorySet) : String :=
  "\x7b" ++ ", ".intercalate (s.members.map Category.name) ++ "\x7d"

instance : ToString CategorySet := ⟨display⟩

end CategorySet

end Drac
