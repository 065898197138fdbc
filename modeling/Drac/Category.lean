/-!
# Token categories

The closed set of categories that a Drac token can have, with their names and the four classes
that the counters tell apart.

## Main definitions

* `Category`, `Category.name`, `Category.ofName?` — a category, its name, and the way back.
* `Category.all` — every category in declaration order.
* `Category.isKeyword`, `isLiteral`, `isOperator`, `isPunctuation` — the classes.
* `Category.ofReservedWord?` — the category of a reserved word.

## Main results

* `Category.ofName?_name` — a name determines its category.
* `Category.getElem?_all_index` — `all` lists each category at its own index.
* `Category.exists_index_eq` — every index below the number of categories is taken.
-/

namespace Drac

/-- What a token is, as far as the grammar can see. -/
inductive Category
  /-- The word `and`. -/
  | kwAnd
  /-- The word `break`. -/
  | kwBreak
  /-- The word `dec`. -/
  | kwDec
  /-- The word `do`. -/
  | kwDo
  /-- The word `elif`. -/
  | kwElif
  /-- The word `else`. -/
  | kwElse
  /-- The word `false`. -/
  | kwFalse
  /-- The word `if`. -/
  | kwIf
  /-- The word `inc`. -/
  | kwInc
  /-- The word `not`. -/
  | kwNot
  /-- The word `or`. -/
  | kwOr
  /-- The word `return`. -/
  | kwReturn
  /-- The word `true`. -/
  | kwTrue
  /-- The word `var`. -/
  | kwVar
  /-- The word `while`. -/
  | kwWhile
  /-- The sign `=`. -/
  | assign
  /-- The sign `==`. -/
  | equal
  /-- The sign `<>`. -/
  | notEqual
  /-- The sign `<`. -/
  | less
  /-- The sign `<=`. -/
  | lessEqual
  /-- The sign `>`. -/
  | greater
  /-- The sign `>=`. -/
  | greaterEqual
  /-- The sign `+`. -/
  | plus
  /-- The sign `-`. -/
  | minus
  /-- The sign `*`. -/
  | mul
  /-- The sign `/`. -/
  | div
  /-- The sign `%`. -/
  | mod
  /-- The sign `,`. -/
  | comma
  /-- The sign `;`. -/
  | semicolon
  /-- The sign `(`. -/
  | openParen
  /-- The sign `)`. -/
  | closeParen
  /-- The sign `[`. -/
  | openBracket
  /-- The sign `]`. -/
  | closeBracket
  /-- The sign for the start of a block. -/
  | openBrace
  /-- The sign for the end of a block. -/
  | closeBrace
  /-- A character between single quotes. -/
  | charLiteral
  /-- A text between double quotes. -/
  | stringLiteral
  /-- A run of decimal digits. -/
  | intLiteral
  /-- A word that is not reserved. -/
  | identifier
  /-- A character that starts no token. -/
  | illegalChar
  /-- The end of the input. -/
  | eof
  deriving DecidableEq, Repr, Inhabited

namespace Category

/-- Every category in declaration order. -/
def all : List Category :=
  [kwAnd, kwBreak, kwDec, kwDo, kwElif, kwElse, kwFalse, kwIf, kwInc, kwNot, kwOr, kwReturn,
    kwTrue, kwVar, kwWhile, assign, equal, notEqual, less, lessEqual, greater, greaterEqual, plus,
    minus, mul, div, mod, comma, semicolon, openParen, closeParen, openBracket, closeBracket,
    openBrace, closeBrace, charLiteral, stringLiteral, intLiteral, identifier, illegalChar, eof]

/-- The place of a category in declaration order, counted from zero. -/
def index (c : Category) : Nat := c.ctorIdx

/-- The number of categories. -/
abbrev count : Nat := 41

theorem index_lt (c : Category) : c.index < count := by cases c <;> decide

@[simp] theorem getElem?_all_index (c : Category) : all[c.index]? = some c := by cases c <;> rfl

@[simp] theorem mem_all (c : Category) : c ∈ all :=
  List.mem_of_getElem? (getElem?_all_index c)

theorem index_injective {c d : Category} (h : c.index = d.index) : c = d :=
  Option.some.inj (by rw [← getElem?_all_index c, ← getElem?_all_index d, h])

@[simp] theorem index_inj {c d : Category} : c.index = d.index ↔ c = d :=
  ⟨index_injective, congrArg index⟩

/-- The indices of the categories are the numbers below their number, in this order. -/
theorem map_index_all : all.map index = List.range count := by decide

theorem pairwise_all : all.Pairwise fun c d => c.index < d.index := by decide

/-- Every index below the number of categories is that of a category. -/
theorem exists_index_eq {i : Nat} (h : i < count) : ∃ c : Category, c.index = i := by
  rw [← List.mem_range, ← map_index_all] at h
  obtain ⟨c, -, hc⟩ := List.mem_map.mp h
  exact ⟨c, hc⟩

/-! ### Names -/

/-- The name of a category, as reports write it. -/
def name : Category → String
  | kwAnd => "AND"
  | kwBreak => "BREAK"
  | kwDec => "DEC"
  | kwDo => "DO"
  | kwElif => "ELIF"
  | kwElse => "ELSE"
  | kwFalse => "FALSE"
  | kwIf => "IF"
  | kwInc => "INC"
  | kwNot => "NOT"
  | kwOr => "OR"
  | kwReturn => "RETURN"
  | kwTrue => "TRUE"
  | kwVar => "VAR"
  | kwWhile => "WHILE"
  | assign => "ASSIGN"
  | equal => "EQUAL"
  | notEqual => "NOT_EQUAL"
  | less => "LESS"
  | lessEqual => "LESS_EQUAL"
  | greater => "GREATER"
  | greaterEqual => "GREATER_EQUAL"
  | plus => "PLUS"
  | minus => "MINUS"
  | mul => "MUL"
  | div => "DIV"
  | mod => "MOD"
  | comma => "COMMA"
  | semicolon => "SEMICOLON"
  | openParen => "OPEN_PAREN"
  | closeParen => "CLOSE_PAREN"
  | openBracket => "OPEN_BRACKET"
  | closeBracket => "CLOSE_BRACKET"
  | openBrace => "OPEN_BRACE"
  | closeBrace => "CLOSE_BRACE"
  | charLiteral => "CHAR_LITERAL"
  | stringLiteral => "STRING_LITERAL"
  | intLiteral => "INT_LITERAL"
  | identifier => "IDENTIFIER"
  | illegalChar => "ILLEGAL_CHAR"
  | eof => "EOF"

instance : ToString Category := ⟨name⟩

/-- The category with a given name; case and every character count. -/
def ofName? (s : String) : Option Category := all.find? fun c => c.name == s

@[simp] theorem ofName?_name (c : Category) : ofName? c.name = some c := by cases c <;> decide

/-- The name in words that start with a capital and are not separated: `NotEqual`. -/
def title (c : Category) : String :=
  String.join ((c.name.splitOn "_").map fun w => (w.map Char.toLower).capitalize)

/-! ### Classes -/

/-- The reserved words, except the two boolean literals. -/
def isKeyword : Category → Bool
  | kwAnd | kwBreak | kwDec | kwDo | kwElif | kwElse | kwIf | kwInc | kwNot | kwOr | kwReturn
  | kwVar | kwWhile => true
  | _ => false

/-- The literals, of which two are reserved words. -/
def isLiteral : Category → Bool
  | kwTrue | kwFalse | intLiteral | charLiteral | stringLiteral => true
  | _ => false

/-- The signs that join or compare values, and the assignment sign. -/
def isOperator (c : Category) : Bool := assign.index ≤ c.index && c.index ≤ mod.index

/-- The signs that separate or enclose. -/
def isPunctuation (c : Category) : Bool := comma.index ≤ c.index && c.index ≤ closeBrace.index

/-! ### Reserved words -/

/-- The reserved words in alphabetical order. -/
def reservedWords : List String :=
  ["and", "break", "dec", "do", "elif", "else", "false", "if", "inc", "not", "or", "return",
    "true", "var", "while"]

/-- The category of a reserved word; every other word has none. -/
def ofReservedWord? : String → Option Category
  | "and" => some kwAnd
  | "break" => some kwBreak
  | "dec" => some kwDec
  | "do" => some kwDo
  | "elif" => some kwElif
  | "else" => some kwElse
  | "false" => some kwFalse
  | "if" => some kwIf
  | "inc" => some kwInc
  | "not" => some kwNot
  | "or" => some kwOr
  | "return" => some kwReturn
  | "true" => some kwTrue
  | "var" => some kwVar
  | "while" => some kwWhile
  | _ => none

end Category

end Drac
