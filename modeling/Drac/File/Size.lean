/-!
# Sizes for people

## Main definitions

* `roundToBits` — the nearest number with a bounded number of significant binary digits.
* `hundredths` — a quotient in hundredths, to the nearest and to the even one between two.
* `humanSize` — a size with two decimal places, in the largest unit that it fills up to gigabytes.
-/

namespace Drac.File

/-- The quotient of two numbers to the nearest number; halfway between two, to the even one. -/
def roundDiv (n d : Nat) : Nat :=
  let q := n / d
  let r := n % d
  if 2 * r < d then q else if 2 * r = d then q + q % 2 else q + 1

/-- The nearest number with at most `bits` significant binary digits. -/
def roundToBits (bits n : Nat) : Nat :=
  let unit := 1 <<< (n.log2 + 1 - bits)
  roundDiv n unit * unit

/-- A quotient in hundredths. -/
def hundredths (n d : Nat) : Nat := roundDiv (100 * n) d

/-- A number of hundredths with two decimal places. -/
def twoPlaces (h : Nat) : String :=
  toString (h / 100) ++ "." ++ toString (h % 100 / 10) ++ toString (h % 10)

/-- The bytes of a kilobyte. -/
def kilobyte : Nat := 1024

/-- The bytes of a megabyte. -/
def megabyte : Nat := 1024 * kilobyte

/-- The bytes of a gigabyte. -/
def gigabyte : Nat := 1024 * megabyte

/-- A size in bytes.  Above a kilobyte it is given with two places, from a value of 53 significant
binary digits. -/
def humanSize (bytes : Nat) : String :=
  let n := roundToBits 53 bytes
  if n < kilobyte then toString bytes ++ " B"
  else if n < megabyte then twoPlaces (hundredths n kilobyte) ++ " KB"
  else if n < gigabyte then twoPlaces (hundredths n megabyte) ++ " MB"
  else twoPlaces (hundredths n gigabyte) ++ " GB"

end Drac.File
