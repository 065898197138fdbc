import Mathlib.Data.Nat.Notation

/-!
# Numbers in a text

A number is written by its decimal digits.  The digits give the number, and no other sign is among them, so a
number that follows such a sign can be read from the end of a text.

## Main results

* `Text.ofDigitChars_toString` — the digits give the number.
* `Text.eq_of_first_eq`, `eq_of_last_eq` — a text is cut in one way only where a character stands first or last.
* `Text.eq_of_number_eq` — **a number at the end of a text is read in one way only.**
-/

namespace Drac.Text

variable {c : Char} {as bs cs ds : List Char} {m n : ℕ}

/-! ### Digits -/

theorem isDigit_of_mem_toString (h : c ∈ (toString n).toList) : c.isDigit = true := by
  rw [Nat.toString_eq_repr, Nat.toList_repr] at h
  exact Nat.isDigit_of_mem_toDigits (by decide) (by decide) h

theorem notMem_toString (hc : c.isDigit = false) : c ∉ (toString n).toList := by
  intro hmem
  rw [isDigit_of_mem_toString hmem] at hc
  cases hc

/-- The digits of a number give the number. -/
theorem ofDigitChars_toString (n : ℕ) : Nat.ofDigitChars 10 (toString n).toList 0 = n := by
  rw [Nat.toString_eq_repr, Nat.toList_repr, Nat.ofDigitChars_toDigits (by decide) (by decide)]

/-! ### Cuts -/

/-- A text is cut in one way only where a character stands first. -/
theorem eq_of_first_eq (has : c ∉ as) (hbs : c ∉ bs) (h : as ++ c :: cs = bs ++ c :: ds) :
    as = bs ∧ cs = ds := by
  have hcut {xs : List Char} (ys : List Char) (hxs : c ∉ xs) :
      (xs ++ c :: ys).takeWhile (· != c) = xs := by
    have hne : ∀ d ∈ xs, (d != c) = true := fun d hd => bne_iff_ne.mpr (ne_of_mem_of_not_mem hd hxs)
    rw [List.takeWhile_append_of_pos hne, List.takeWhile_cons_of_neg (by simp), List.append_nil]
  have heq : as = bs := by
    calc as
      _ = (as ++ c :: cs).takeWhile (· != c) := (hcut cs has).symm
      _ = (bs ++ c :: ds).takeWhile (· != c) := by rw [h]
      _ = bs := hcut ds hbs
  subst heq
  exact ⟨rfl, (List.cons.inj (List.append_cancel_left h)).2⟩

/-- A text is cut in one way only where a character stands last. -/
theorem eq_of_last_eq (hcs : c ∉ cs) (hds : c ∉ ds) (h : as ++ c :: cs = bs ++ c :: ds) :
    as = bs ∧ cs = ds := by
  have hreverse : cs.reverse ++ c :: as.reverse = ds.reverse ++ c :: bs.reverse := by
    simpa using congrArg List.reverse h
  obtain ⟨hback, hfront⟩ := eq_of_first_eq (by simpa using hcs) (by simpa using hds) hreverse
  exact ⟨List.reverse_inj.mp hfront, List.reverse_inj.mp hback⟩

/-- **A number at the end of a text is read in one way only** if a sign that is no digit stands before it. -/
theorem eq_of_number_eq (hc : c.isDigit = false)
    (h : as ++ c :: (toString m).toList = bs ++ c :: (toString n).toList) : as = bs ∧ m = n := by
  obtain ⟨hfront, hdigits⟩ := eq_of_last_eq (notMem_toString hc) (notMem_toString hc) h
  refine ⟨hfront, ?_⟩
  rw [← ofDigitChars_toString m, hdigits, ofDigitChars_toString]

end Drac.Text
