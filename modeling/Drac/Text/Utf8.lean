/-!
# Where an encoding breaks

## Main definitions

* `validUpTo` — the number of bytes at the start of a byte sequence that encode characters.
-/

namespace Drac.Text

set_option linter.unusedVariables false in
/-- The offset at which the first sequence of bytes starts, from `i` on, that encodes no character;
the size where there is none. -/
def validFrom (bytes : ByteArray) (i : Nat) : Nat :=
  match h : bytes.utf8DecodeChar? i with
  | none => i
  | some c => validFrom bytes (i + c.utf8Size)
termination_by bytes.size - i
decreasing_by
  have hfits := ByteArray.le_size_of_utf8DecodeChar?_eq_some h
  have hpos := c.utf8Size_pos
  omega

/-- The number of bytes at the start that encode characters in UTF-8. -/
def validUpTo (bytes : ByteArray) : Nat := validFrom bytes 0

end Drac.Text
