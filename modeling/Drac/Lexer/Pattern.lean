/-!
# Regular expressions of the rules

The rules of the lexer are stated as regular expressions.  This module has their form and their
text; the lexer itself scans by hand.

## Main definitions

* `CharSet`, `Pattern` — sets of characters and regular expressions over them.
* `Pattern.text` — the usual notation of a regular expression.
-/

namespace Drac.Lexer

/-- A part of a bracketed set of characters. -/
inductive SetItem
  /-- One character. -/
  | single (c : Char)
  /-- All characters from one to another. -/
  | range (first last : Char)
  deriving DecidableEq, Repr

/-- A set of characters that a regular expression names. -/
inductive CharSet
  /-- Every character. -/
  | any
  /-- Every character but the line break. -/
  | sameLine
  /-- White space. -/
  | blank
  /-- The listed characters. -/
  | oneOf (items : List SetItem)
  /-- All characters but the listed ones. -/
  | noneOf (items : List SetItem)
  deriving DecidableEq, Repr

/-- A regular expression. -/
inductive Pattern
  /-- One given character. -/
  | char (c : Char)
  /-- One character of a set. -/
  | set (s : CharSet)
  /-- One expression after the other. -/
  | seq (p q : Pattern)
  /-- The first expression or, failing that, the second. -/
  | alt (p q : Pattern)
  /-- Any number of times, as often as possible. -/
  | star (p : Pattern)
  /-- Any number of times, as seldom as possible. -/
  | lazyStar (p : Pattern)
  /-- At least once, as often as possible. -/
  | plus (p : Pattern)
  /-- Exactly `n` times. -/
  | times (n : Nat) (p : Pattern)
  deriving DecidableEq, Repr

/-! ### Notation -/

/-- A character that may stand for more than itself is marked with a backslash. -/
def charText (special : List Char) (c : Char) : String :=
  if c = '\n' then "\\n"
  else if special.contains c then "\\" ++ c.toString
  else c.toString

/-- The notation of a part of a bracketed set. -/
def SetItem.text : SetItem → String
  | single c => charText ['\\'] c
  | range a b => charText ['\\'] a ++ "-" ++ charText ['\\'] b

/-- The notation of a set. -/
def CharSet.text : CharSet → String
  | any => "(?s:.)"
  | sameLine => "."
  | blank => "\\s"
  | oneOf items => "[" ++ String.join (items.map SetItem.text) ++ "]"
  | noneOf items => "[^" ++ String.join (items.map SetItem.text) ++ "]"

/-- The characters with a meaning of their own outside of brackets. -/
def specialChars : List Char :=
  ['\\', '(', ')', '[', ']', '\x7b', '\x7d', '*', '+', '?', '.', '|', '^', '$']

/-- The notation of a regular expression.  Only alternatives need to be enclosed, since the others
repeat single characters. -/
def Pattern.text : Pattern → String
  | char c => charText specialChars c
  | set s => s.text
  | seq p q => p.text ++ q.text
  | alt p q => "(?:" ++ p.text ++ "|" ++ q.text ++ ")"
  | star p => p.text ++ "*"
  | lazyStar p => p.text ++ "*?"
  | plus p => p.text ++ "+"
  | times n p => p.text ++ "\x7b" ++ toString n ++ "\x7d"

/-- One expression after the other. -/
instance : Append Pattern := ⟨Pattern.seq⟩

/-- A fixed text of at least one character. -/
def Pattern.literal (first : Char) : List Char → Pattern
  | [] => char first
  | c :: cs => char first ++ literal c cs

end Drac.Lexer
