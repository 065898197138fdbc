import Mathlib.Data.List.Induction
import Mathlib.Order.Bounds.Basic
import Drac.File.Source

/-!
# What is measured of a text

Two numbers are told about bytes that do not make an acceptable text: how far they can be decoded, and how
many lines there are.  Both are computed in one pass.  Here they are described without it.

## Main definitions

* `Text.linesOf` — the number of lines, by their breaks.

## Main results

* `Text.isGreatest_validUpTo` — **as many bytes are valid as a valid prefix can have.**
* `Text.lineCount_eq_linesOf` — **lines are counted by their breaks.**
-/

namespace Drac.Text

/-! ### How far bytes can be decoded -/

section

variable {bytes : ByteArray} {i n : ℕ}

/-- Between the ends of two valid prefixes there is a character. -/
theorem exists_utf8DecodeChar?_of_lt (hi : (bytes.extract 0 i).IsValidUTF8)
    (hn : (bytes.extract 0 n).IsValidUTF8) (hlt : i < n) (hsize : n ≤ bytes.size) :
    ∃ c, bytes.utf8DecodeChar? i = some c ∧ i + c.utf8Size ≤ n := by
  have hlength : (bytes.extract 0 n).size = n := by simpa using hsize
  have hwhole : bytes.extract 0 n ++ bytes.extract n bytes.size = bytes := by
    rw [← ByteArray.extract_eq_extract_append_extract n n.zero_le hsize, ByteArray.extract_zero_size]
  have hextract : (bytes.extract 0 n).extract 0 i = bytes.extract 0 i := by
    rw [ByteArray.extract_extract, Nat.zero_add, Nat.zero_add, min_eq_left hlt.le]
  -- the end of the shorter prefix is a place between characters of the longer one
  have hplace : (String.Pos.Raw.mk i).IsValid (.ofByteArray (bytes.extract 0 n) hn) := by
    rw [String.Pos.Raw.isValid_iff_isValidUTF8_extract_zero]
    refine ⟨?_, hextract.symm ▸ hi⟩
    rw [String.Pos.Raw.le_iff]
    simpa [← String.size_toByteArray, hlength] using hlt.le
  rcases String.Pos.Raw.isValid_iff_isSome_utf8DecodeChar?.mp hplace with hend | hsome
  · have hi : i = n := by
      simpa [← String.size_toByteArray, hlength] using congrArg String.Pos.Raw.byteIdx hend
    exact absurd hi hlt.ne
  · obtain ⟨c, hc⟩ := Option.isSome_iff_exists.mp hsome
    have hfits : i + c.utf8Size ≤ (bytes.extract 0 n).size :=
      ByteArray.le_size_of_utf8DecodeChar?_eq_some hc
    refine ⟨c, ?_, hlength ▸ hfits⟩
    rw [← hwhole]
    exact ByteArray.utf8DecodeChar?_append_eq_some hc _

/-- A valid prefix with the character behind it is a valid prefix. -/
theorem isValidUTF8_extract_add {c : Char} (hi : (bytes.extract 0 i).IsValidUTF8)
    (hc : bytes.utf8DecodeChar? i = some c) : (bytes.extract 0 (i + c.utf8Size)).IsValidUTF8 := by
  have hfits : i + c.utf8Size ≤ bytes.size := ByteArray.le_size_of_utf8DecodeChar?_eq_some hc
  rw [ByteArray.utf8DecodeChar?_eq_utf8DecodeChar?_extract] at hc
  have hencoded : (String.utf8EncodeChar c).toByteArray = bytes.extract i (i + c.utf8Size) := by
    rw [String.toByteArray_utf8EncodeChar_of_utf8DecodeChar?_eq_some hc, ByteArray.extract_extract,
      Nat.add_zero, min_eq_left hfits]
  rw [ByteArray.extract_eq_extract_append_extract i i.zero_le (Nat.le_add_right _ _), ← hencoded]
  exact hi.append Char.isValidUTF8_toByteArray_utf8EncodeChar

/-- From the end of a valid prefix on, decoding goes on to the end of the longest one. -/
theorem isGreatest_validFrom (hi : (bytes.extract 0 i).IsValidUTF8) (hsize : i ≤ bytes.size) :
    IsGreatest {n | n ≤ bytes.size ∧ (bytes.extract 0 n).IsValidUTF8} (validFrom bytes i) := by
  fun_induction validFrom bytes i with
  | case1 i hnone =>
    refine ⟨⟨hsize, hi⟩, ?_⟩
    rintro n ⟨hn, hvalid⟩
    by_contra hlt
    obtain ⟨c, hc, -⟩ := exists_utf8DecodeChar?_of_lt hi hvalid (Nat.lt_of_not_le hlt) hn
    rw [hnone] at hc
    cases hc
  | case2 i c hc ih =>
    exact ih (isValidUTF8_extract_add hi hc) (ByteArray.le_size_of_utf8DecodeChar?_eq_some hc)

/-- **As many bytes are valid as a valid prefix can have.** -/
theorem isGreatest_validUpTo (bytes : ByteArray) :
    IsGreatest {n | n ≤ bytes.size ∧ (bytes.extract 0 n).IsValidUTF8} (validUpTo bytes) := by
  apply isGreatest_validFrom
  · rw [ByteArray.extract_same]
    exact ByteArray.isValidUTF8_empty
  · exact Nat.zero_le _

end

/-! ### How many lines there are -/

/-- A pass counts line breaks, and it knows whether anything stands behind the last one. -/
theorem foldl_lineStep (cs : List Char) (breaks : ℕ) (tail : Bool) :
    cs.foldl lineStep (breaks, tail) =
      (breaks + cs.count '\n', cs.getLast?.elim tail (· != '\n')) := by
  induction cs using List.reverseRecOn with
  | nil => rfl
  | append_singleton cs c ih =>
    rw [List.foldl_append, List.foldl_cons, List.foldl_nil, ih, List.getLast?_concat,
      List.count_append, lineStep]
    by_cases hc : c = '\n'
    · rw [if_pos hc, hc]
      rfl
    · rw [if_neg hc, List.count_singleton, beq_eq_false_iff_ne.mpr hc]
      simp [hc]

/-- The number of lines of a text: its line breaks, and one more if anything stands behind the last one. -/
def linesOf (s : String) : ℕ :=
  s.toList.count '\n' + if s.toList.getLast?.all (· == '\n') then 0 else 1

/-- **Lines are counted by their breaks**, and what stands behind the last break is one more line. -/
theorem lineCount_eq_linesOf (s : String) : lineCount s = linesOf s := by
  unfold lineCount linesOf
  rw [String.foldl_eq_foldl_toList, foldl_lineStep]
  cases hlast : s.toList.getLast? with
  | none => simp
  | some c =>
    by_cases hc : c = '\n'
    · simp [hc]
    · simp [hc]

end Drac.Text
