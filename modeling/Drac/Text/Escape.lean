import Drac.Text.Printable

/-!
# Texts shown unambiguously

A text is shown with the characters escaped that would not show, or that would attach to what
stands before them.

## Main definitions

* `escapeChar` — how one character is shown.
* `escaped` — a text on its own; quotes of both kinds are escaped.
* `doubleQuoted` — a text between double quotes.
-/

namespace Drac.Text

/-- A character by its code point in hexadecimal digits. -/
def codePointEscape (c : Char) : List Char :=
  ['\\', 'u', '\x7b'] ++ Nat.toDigits 16 c.toNat ++ ['\x7d']

/-- How a character is shown: `single` says whether a single quote is escaped, `attaching` whether
a combining character is. -/
def escapeChar (single attaching : Bool) (c : Char) : List Char :=
  if c = '\x00' then ['\\', '0']
  else if c = '\t' then ['\\', 't']
  else if c = '\r' then ['\\', 'r']
  else if c = '\n' then ['\\', 'n']
  else if c = '\\' then ['\\', '\\']
  else if c = '"' then ['\\', '"']
  else if c = '\'' && single then ['\\', '\'']
  else if (attaching && isCombining c) || !isPrintable c then codePointEscape c
  else [c]

/-- A text with what would not show escaped; only at its start a combining character has nothing to
attach to. -/
def escaped (s : String) : String :=
  match s.toList with
  | [] => ""
  | c :: cs => String.ofList (escapeChar true true c ++ cs.flatMap (escapeChar true false))

/-- A text between double quotes, with what would not show by itself escaped. -/
def doubleQuoted (s : String) : String :=
  "\"" ++ String.ofList (s.toList.flatMap (escapeChar false true)) ++ "\""

end Drac.Text
