/-!
# JSON values and their text

Values are written in two forms: a compact one without blanks, and an indented one with two blanks
for each level. Members keep the order in which they are listed.

## Main definitions

* `Json` — a value; a number is kept as its literal.
* `Json.quoted` — a text between double quotes, with the escapes that JSON asks for.
* `Json.compact`, `Json.pretty` — the two written forms.
-/

namespace Drac

/-- A JSON value. -/
inductive Json
  /-- The value `null`. -/
  | null
  /-- A truth value. -/
  | bool (b : Bool)
  /-- A number, as its literal. -/
  | number (literal : String)
  /-- A text. -/
  | string (text : String)
  /-- A list of values. -/
  | array (items : List Json)
  /-- Named values in order. -/
  | object (members : List (String × Json))
  deriving Repr, Inhabited

namespace Json

/-- A natural number in decimal digits. -/
def ofNat (n : Nat) : Json := .number (toString n)

/-- A text, or `null` where there is none. -/
def ofText? : Option String → Json
  | none => .null
  | some s => .string s

/-! ### Texts between quotes -/

/-- A hexadecimal digit below sixteen, in lower case. -/
def hexDigit (n : Nat) : Char := Nat.digitChar n

/-- How a character is written between quotes: quotes, backslashes and control characters are
escaped, all others stand for themselves. -/
def escaped (c : Char) : List Char :=
  if c = '"' then ['\\', '"']
  else if c = '\\' then ['\\', '\\']
  else if c = '\n' then ['\\', 'n']
  else if c = '\r' then ['\\', 'r']
  else if c = '\t' then ['\\', 't']
  else if c = '\x08' then ['\\', 'b']
  else if c = '\x0c' then ['\\', 'f']
  else if c.toNat < 0x20 then
    ['\\', 'u', '0', '0', hexDigit (c.toNat / 16), hexDigit (c.toNat % 16)]
  else [c]

/-- A text between double quotes. -/
def quoted (s : String) : String := "\"" ++ String.ofList (s.toList.flatMap escaped) ++ "\""

/-! ### The compact form -/

mutual

/-- The text of a value without blanks. -/
def compact : Json → String
  | .null => "null"
  | .bool b => if b then "true" else "false"
  | .number n => n
  | .string s => quoted s
  | .array items => "[" ++ ",".intercalate (compactItems items) ++ "]"
  | .object members => "\x7b" ++ ",".intercalate (compactMembers members) ++ "\x7d"

/-- The text of each of several values. -/
def compactItems : List Json → List String
  | [] => []
  | v :: vs => compact v :: compactItems vs

/-- The text of each of several members. -/
def compactMembers : List (String × Json) → List String
  | [] => []
  | (k, v) :: ms => (quoted k ++ ":" ++ compact v) :: compactMembers ms

end

/-! ### The indented form -/

/-- A line break and the blanks of a level. -/
def lineBreak (level : Nat) : String := "\n" ++ "".pushn ' ' (2 * level)

mutual

/-- Appends the text of a value at a level of indentation. -/
def prettyOnto (level : Nat) (out : String) : Json → String
  | .null => out ++ "null"
  | .bool b => out ++ if b then "true" else "false"
  | .number n => out ++ n
  | .string s => out ++ quoted s
  | .array [] => out ++ "[]"
  | .array (v :: vs) => prettyItems (level + 1) (out ++ "[") (v :: vs) ++ lineBreak level ++ "]"
  | .object [] => out ++ "\x7b\x7d"
  | .object (m :: ms) =>
    prettyMembers (level + 1) (out ++ "\x7b") (m :: ms) ++ lineBreak level ++ "\x7d"

/-- Appends the texts of values, each on a line of its own. -/
def prettyItems (level : Nat) (out : String) : List Json → String
  | [] => out
  | [v] => prettyOnto level (out ++ lineBreak level) v
  | v :: vs => prettyItems level (prettyOnto level (out ++ lineBreak level) v ++ ",") vs

/-- Appends the texts of members, each on a line of its own. -/
def prettyMembers (level : Nat) (out : String) : List (String × Json) → String
  | [] => out
  | [(k, v)] => prettyOnto level (out ++ lineBreak level ++ quoted k ++ ": ") v
  | (k, v) :: ms =>
    prettyMembers level (prettyOnto level (out ++ lineBreak level ++ quoted k ++ ": ") v ++ ",") ms

end

/-- The indented text of a value. -/
def pretty (v : Json) : String := prettyOnto 0 "" v

end Json

end Drac
