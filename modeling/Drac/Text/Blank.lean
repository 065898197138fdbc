/-!
# White space

## Main definitions

* `isBlank` — the characters with the property White_Space.
-/

namespace Drac.Text

/-- The characters with the Unicode property White_Space: the control characters from tab to
carriage return, the space, and the spaces and separators outside of ASCII. -/
def isBlank (c : Char) : Bool :=
  let n := c.toNat
  (9 ≤ n && n ≤ 13) || n == 0x20 ||
    (0x85 ≤ n &&
      (n == 0x85 || n == 0xa0 || n == 0x1680 || (0x2000 ≤ n && n ≤ 0x200a) || n == 0x2028 ||
        n == 0x2029 || n == 0x202f || n == 0x205f || n == 0x3000))

end Drac.Text
