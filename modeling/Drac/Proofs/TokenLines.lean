import Drac.Proofs.Numerals
import Drac.Token

/-!
# Tokens in one line

A token is printed in one line, its text between quotes and as it is, so the text may look like the rest of
such a line.  The line is still read in one way only: the name of the category ends at the first comma, and the
two numbers of the position are read from the end, where nothing of the text can be taken for them.

## Main definitions

* `Token.heading` — what a line shows before the position.

## Main results

* `Token.eq_of_heading_eq` — what stands before the position gives category and text.
* `Token.display_eq_display_iff` — **lines that are equal show the same category, text and position.**
-/

namespace Drac

namespace Category

/-- A category is known by its name. -/
theorem name_inj {c d : Category} : c.name = d.name ↔ c = d := by
  constructor
  · intro h
    rw [← Option.some_inj, ← ofName?_name c, h, ofName?_name]
  · rintro rfl
    rfl

theorem comma_notMem_name (c : Category) : ',' ∉ c.name.toList := by
  cases c <;> decide

end Category

namespace Token

variable {t u : Token}

/-- What a line shows before the position. -/
def heading (t : Token) : List Char :=
  '\x7b' :: (t.category.name.toList ++ ',' :: (" \"".toList ++ t.text.toList ++ "\", @".toList))

/-- A line is its heading and two numbers, with signs before, between and behind them. -/
theorem toList_display (t : Token) :
    t.display.toList =
      (t.heading ++ '(' :: (toString t.position.line).toList) ++ [','] ++
        ' ' :: (toString t.position.column).toList ++ [')', '\x7d'] := by
  simp [display, heading]

/-- What stands before the position gives category and text. -/
theorem eq_of_heading_eq (h : t.heading = u.heading) :
    t.category = u.category ∧ t.text = u.text := by
  obtain ⟨hname, hrest⟩ :=
    Text.eq_of_first_eq (Category.comma_notMem_name _) (Category.comma_notMem_name _) (List.cons.inj h).2
  have htext : t.text.toList = u.text.toList :=
    List.append_cancel_left (List.append_cancel_right hrest)
  exact ⟨Category.name_inj.mp (String.toList_inj.mp hname), String.toList_inj.mp htext⟩

/-- **Lines that are equal show the same category, text and position**, whatever the texts are: they are
printed as they are, with quotes, commas, brackets and line breaks, and may look like the end of a line. -/
theorem display_eq_display_iff :
    t.display = u.display ↔
      t.category = u.category ∧ t.text = u.text ∧
        t.position.line = u.position.line ∧ t.position.column = u.position.column := by
  constructor
  · intro h
    have hline := congrArg String.toList h
    rw [toList_display, toList_display] at hline
    -- from the end: the column, the line, and then what stands before both
    obtain ⟨hfront, hcolumn⟩ := Text.eq_of_number_eq (by decide) (List.append_cancel_right hline)
    obtain ⟨hheading, hnumber⟩ := Text.eq_of_number_eq (by decide) (List.append_cancel_right hfront)
    obtain ⟨hcategory, htext⟩ := eq_of_heading_eq hheading
    exact ⟨hcategory, htext, hnumber, hcolumn⟩
  · rintro ⟨hcategory, htext, hnumber, hcolumn⟩
    rw [display, display, hcategory, htext, hnumber, hcolumn]

/-- A line does not tell an empty text from a missing one. -/
example : (Token.mk (some "") .eof ⟨3, 1⟩).display = (eof ⟨3, 1⟩).display := rfl

end Token

end Drac
