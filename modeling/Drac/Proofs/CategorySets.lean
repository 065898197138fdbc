import Drac.Report
import Mathlib.Data.Nat.Notation

/-!
# What a set of categories holds

A set of categories is a word, and three things are read from it in three ways: membership from the bit at the
index of a category, the list of the members from the table of all categories, their number from all bits of
the word.  They agree because no bit stands behind those of the categories, and because the table lists the
categories by their indices.

## Main definitions

* `CategorySet.Construction`, `Construction.eval` — a way to make a set, and the set that comes of it.
* `Construction.Puts` — what is put into a set on the way.

## Main results

* `CategorySet.size_eq_length_members` — the bits count the members.
* `CategorySet.pairwise_members`, `ofList_members` — the members, in order, and the set made of them.
* `CategorySet.Construction.contains_eval` — a set contains what was put into it.
* `CategorySet.Construction.eval_faithful` — **a set of categories is the finite set of what was put into
  it.**
-/

namespace Drac

namespace CategorySet

/-! ### The members and their number -/

/-- A word has as many bits below a place as there are indices of set bits below it. -/
theorem cpopNatRec_eq_countP {w : ℕ} (x : BitVec w) (n : ℕ) :
    x.cpopNatRec n 0 = (List.range n).countP x.getLsbD := by
  induction n with
  | zero => rfl
  | succ n ih =>
    rw [BitVec.cpopNatRec_succ, BitVec.cpopNatRec_eq, ih, List.range_succ, List.countP_append,
      List.countP_singleton]
    cases x.getLsbD n <;> rfl

/-- The number of bits that are set is the number of members. -/
theorem size_eq_length_members (s : CategorySet) : s.size = s.members.length := by
  -- the indices of the categories come first, and the other bits of the word stand behind them
  have hsplit : List.range 64 =
      Category.all.map Category.index ++ (List.range 23).map (Category.count + ·) := by decide
  have hbehind : ((List.range 23).map (Category.count + ·)).countP s.bits.getLsbD = 0 := by
    rw [List.countP_eq_zero]
    intro i hi
    obtain ⟨k, -, rfl⟩ := List.mem_map.mp hi
    rw [s.bits_bounded _ (Nat.le_add_right ..)]
    exact Bool.false_ne_true
  calc s.size
    _ = (List.range 64).countP s.bits.getLsbD := by
      rw [size, BitVec.toNat_cpop, cpopNatRec_eq_countP]
    _ = (Category.all.map Category.index).countP s.bits.getLsbD := by
      rw [hsplit, List.countP_append, hbehind, Nat.add_zero]
    _ = Category.all.countP s.contains := List.countP_map
    _ = s.members.length := List.countP_eq_length_filter

/-- The members are listed once each, in declaration order. -/
theorem pairwise_members (s : CategorySet) : s.members.Pairwise fun c d => c.index < d.index :=
  Category.pairwise_all.filter _

/-- A set is made again of its members. -/
theorem ofList_members (s : CategorySet) : ofList s.members = s := by
  apply ext_contains
  intro c
  rw [contains_ofList, Bool.eq_iff_iff, List.contains_iff_mem, mem_members]

/-- A set has no bit if it has no member. -/
theorem isEmpty_iff {s : CategorySet} : s.isEmpty = true ↔ ∀ c, s.contains c = false := by
  have hempty : s.isEmpty = true ↔ s = empty := by
    rw [isEmpty, beq_iff_eq]
    constructor
    · intro h
      cases s
      cases h
      rfl
    · rintro rfl
      rfl
  rw [hempty]
  constructor
  · rintro rfl
    exact contains_empty
  · intro h
    apply ext_contains
    intro c
    rw [h c, contains_empty]

/-! ### How sets are made -/

/-- A way to make a set of categories. -/
inductive Construction
  /-- Of a list that is written down or gathered, in any order and with repetitions. -/
  | ofList (cs : List Category)
  /-- Of a set and one more category. -/
  | insert (b : Construction) (c : Category)
  /-- Of two sets. -/
  | union (b d : Construction)

namespace Construction

/-- The set that is made. -/
def eval : Construction → CategorySet
  | ofList cs => CategorySet.ofList cs
  | insert b c => b.eval.insert c
  | union b d => b.eval.union d.eval

/-- A category is put into the set somewhere on the way. -/
def Puts : Construction → Category → Prop
  | ofList cs, c => c ∈ cs
  | insert b d, c => b.Puts c ∨ d = c
  | union b d, c => b.Puts c ∨ d.Puts c

/-- A set contains what was put into it. -/
theorem contains_eval (b : Construction) (c : Category) : b.eval.contains c = true ↔ b.Puts c := by
  induction b with
  | ofList cs => rw [eval, contains_ofList, List.contains_iff_mem, Puts]
  | insert b d ih => rw [eval, contains_insert, Bool.or_eq_true, beq_iff_eq, ih, Puts]
  | union b d ihb ihd => rw [eval, contains_union, Bool.or_eq_true, ihb, ihd, Puts]

/-- **A set of categories is the finite set of what was put into it**, in whatever way it is made: its
members are what was put into it, listed once each in declaration order, and it has as many as it says; it is
equal to another one if the same was put into both; its members make it again; and a report of what would have
fitted lists them. -/
theorem eval_faithful (b : Construction) :
    let s := b.eval
    (∀ c, s.contains c = true ↔ b.Puts c) ∧
      (∀ c, c ∈ s.members ↔ b.Puts c) ∧ (s.members.Pairwise fun c d => c.index < d.index) ∧
      s.size = s.members.length ∧
      (s.isEmpty = true ↔ ∀ c, ¬ b.Puts c) ∧
      (∀ d : Construction, s = d.eval ↔ ∀ c, b.Puts c ↔ d.Puts c) ∧
      CategorySet.ofList s.members = s ∧
      ∀ found, (ErrorReport.ofSyntaxError (.unexpectedToken (.oneOf s) found)).expected = s.members := by
  intro s
  have hcontains : ∀ c, s.contains c = true ↔ b.Puts c := b.contains_eval
  refine ⟨hcontains, ?_, pairwise_members s, size_eq_length_members s, ?_, ?_, ofList_members s,
    fun _ => rfl⟩
  · intro c
    rw [mem_members, hcontains]
  · rw [isEmpty_iff]
    refine forall_congr' fun c => ?_
    rw [← hcontains, Bool.not_eq_true]
  · intro d
    constructor
    · intro heq c
      rw [← hcontains, heq, contains_eval]
    · intro hputs
      apply ext_contains
      intro c
      rw [Bool.eq_iff_iff, hcontains, hputs, contains_eval]

/-- Twice the same category, and two sets in either order. -/
example : (union (ofList [.eof, .comma, .eof]) (insert (ofList []) .kwVar)).eval.members =
    [.kwVar, .comma, .eof] := by decide

end Construction

end CategorySet

end Drac
