import Drac.Category
import Drac.Lexer.Pattern
import Drac.Text.Blank

/-!
# The rules of the lexer

A rule recognizes one kind of text at the start of what is left of a source.  The rules stand in a
table and the first one that applies is taken, so signs of two characters stand before their first
character alone, and the signs that open a comment before those that they start with.

## Main definitions

* `Rule`, `Rule.table` — the rules, and the order in which they are tried.
* `Rule.kind` — what a rule's text turns into.
* `Rule.pattern` — the regular expression of a rule.
* `Rule.width?` — the number of characters that a rule takes at the start of a text.

## Main results

* `Rule.width?_nil`, `Rule.width?_pos` — a rule takes at least one character.
-/

namespace Drac.Lexer

/-! ### Rules and what they produce -/

/-- What a text that a rule has taken turns into. -/
inductive Kind
  /-- A comment between brackets. -/
  | blockComment
  /-- A comment up to the end of its line. -/
  | lineComment
  /-- A line break. -/
  | newline
  /-- Other white space. -/
  | whitespace
  /-- A word, reserved or not. -/
  | word
  /-- A character that starts nothing. -/
  | illegal
  /-- A token of a fixed category. -/
  | token (c : Category)
  deriving DecidableEq, Repr

/-- The name of a kind. -/
def Kind.name : Kind → String
  | blockComment => "BlockComment"
  | lineComment => "LineComment"
  | newline => "Newline"
  | whitespace => "Whitespace"
  | word => "Word"
  | illegal => "Illegal"
  | token c => "Token(" ++ c.title ++ ")"

/-- A rule of the lexer. -/
inductive Rule
  /-- A comment between brackets with stars, which may span lines but does not nest. -/
  | blockComment
  /-- A comment from two dashes to the end of the line. -/
  | lineComment
  /-- A sign, given by its first character and the others. -/
  | symbol (first : Char) (more : List Char) (category : Category)
  /-- One character or one escape between single quotes. -/
  | charLiteral
  /-- Characters and escapes between double quotes. -/
  | stringLiteral
  /-- A line break. -/
  | newline
  /-- One character of white space. -/
  | whitespace
  /-- A run of digits. -/
  | intLiteral
  /-- A letter or an underscore, then letters, underscores and digits. -/
  | word
  /-- Any one character. -/
  | other
  deriving DecidableEq, Repr

namespace Rule

/-- The rules in the order in which they are tried. -/
def table : List Rule :=
  [blockComment, lineComment, symbol '=' ['='] .equal, symbol '=' [] .assign,
    symbol '<' ['='] .lessEqual, symbol '>' ['='] .greaterEqual, symbol '<' ['>'] .notEqual,
    symbol '<' [] .less, symbol '>' [] .greater, symbol '+' [] .plus, symbol '-' [] .minus,
    symbol '*' [] .mul, symbol '/' [] .div, symbol '%' [] .mod, symbol ',' [] .comma,
    symbol ';' [] .semicolon, symbol '(' [] .openParen, symbol ')' [] .closeParen,
    symbol '[' [] .openBracket, symbol ']' [] .closeBracket, symbol '\x7b' [] .openBrace,
    symbol '\x7d' [] .closeBrace, charLiteral, stringLiteral, newline, whitespace, intLiteral, word,
    other]

/-- The place of a rule in the table, counted from zero. -/
def index (r : Rule) : Nat := table.idxOf r

/-- What a rule's text turns into. -/
def kind : Rule → Kind
  | blockComment => .blockComment
  | lineComment => .lineComment
  | symbol _ _ c => .token c
  | charLiteral => .token .charLiteral
  | stringLiteral => .token .stringLiteral
  | newline => .newline
  | whitespace => .whitespace
  | intLiteral => .token .intLiteral
  | word => .word
  | other => .illegal

/-- The name of a rule; all signs share one. -/
def name : Rule → String
  | blockComment => "block_comment"
  | lineComment => "line_comment"
  | symbol .. => "symbol"
  | charLiteral => "char_literal"
  | stringLiteral => "string_literal"
  | newline => "newline"
  | whitespace => "whitespace"
  | intLiteral => "int_literal"
  | word => "word"
  | other => "other"

/-! ### Regular expressions -/

/-- A decimal digit. -/
def digits : SetItem := .range '0' '9'

/-- The regular expression of a rule. -/
def pattern : Rule → Pattern
  | blockComment => .char '(' ++ (.char '*' ++ (.lazyStar (.set .any) ++ (.char '*' ++ .char ')')))
  | lineComment => .char '-' ++ (.char '-' ++ .star (.set (.noneOf [.single '\n'])))
  | symbol c cs _ => .literal c cs
  | charLiteral =>
    .char '\'' ++
      (.alt
          (.char '\\' ++
            .alt
              (.set (.oneOf
                [.single 'n', .single 'r', .single 't', .single '\'', .single '"', .single '\\']))
              (.char 'u' ++ .times 6 (.set (.oneOf [digits, .range 'A' 'F', .range 'a' 'f']))))
          (.set (.noneOf [.single '\\'])) ++
        .char '\'')
  | stringLiteral =>
    .char '"' ++
      (.star (.alt (.set (.noneOf [.single '\\', .single '"'])) (.char '\\' ++ .set .sameLine)) ++
        .char '"')
  | newline => .char '\n'
  | whitespace => .set .blank
  | intLiteral => .plus (.set (.oneOf [digits]))
  | word =>
    .set (.oneOf [.range 'A' 'Z', .range 'a' 'z', .single '_']) ++
      .star (.set (.oneOf [.range 'A' 'Z', .range 'a' 'z', digits, .single '_']))
  | other => .set .sameLine

/-- The alternation of all rules, one group for each. -/
def tablePattern : String :=
  "|".intercalate (table.map fun r => "(" ++ r.pattern.text ++ ")")

/-! ### Scanning -/

/-- A decimal digit. -/
def isDigit (c : Char) : Bool := '0' ≤ c && c ≤ '9'

/-- A hexadecimal digit in either case. -/
def isHexDigit (c : Char) : Bool := isDigit c || ('A' ≤ c && c ≤ 'F') || ('a' ≤ c && c ≤ 'f')

/-- A character that a word can start with. -/
def isWordStart (c : Char) : Bool := ('A' ≤ c && c ≤ 'Z') || ('a' ≤ c && c ≤ 'z') || c == '_'

/-- A character that a word can go on with. -/
def isWordPart (c : Char) : Bool := isWordStart c || isDigit c

/-- The letters and signs that stand for a character after a backslash. -/
def isShortEscape (c : Char) : Bool :=
  c == 'n' || c == 'r' || c == 't' || c == '\'' || c == '"' || c == '\\'

/-- The number of characters up to the end of a block comment, `n` of which have been passed. -/
def commentEnd? (n : Nat) : List Char → Option Nat
  | [] => none
  | '*' :: ')' :: _ => some (n + 2)
  | _ :: cs => commentEnd? (n + 1) cs

/-- The number of characters up to the closing quote of a text, `n` of which have been passed.  A
backslash takes the character after it along, which cannot be a line break. -/
def stringEnd? (n : Nat) : List Char → Option Nat
  | [] => none
  | '"' :: _ => some (n + 1)
  | ['\\'] => none
  | '\\' :: c :: cs => if c = '\n' then none else stringEnd? (n + 2) cs
  | _ :: cs => stringEnd? (n + 1) cs

/-- The number of characters of a character literal. -/
def charWidth? : List Char → Option Nat
  | '\'' :: '\\' :: 'u' :: a :: b :: c :: d :: e :: f :: '\'' :: _ =>
    if [a, b, c, d, e, f].all isHexDigit then some 10 else none
  | '\'' :: '\\' :: c :: '\'' :: _ => if isShortEscape c then some 4 else none
  | '\'' :: c :: '\'' :: _ => if c = '\\' then none else some 3
  | _ => none

/-- The number of characters that a rule takes at the start of a text, if it applies there. -/
def width? : Rule → List Char → Option Nat
  | blockComment, '(' :: '*' :: cs => commentEnd? 2 cs
  | lineComment, '-' :: '-' :: cs => some (2 + (cs.takeWhile (· != '\n')).length)
  | symbol first more _, c :: cs =>
    if c = first && more.isPrefixOf cs then some (1 + more.length) else none
  | charLiteral, cs => charWidth? cs
  | stringLiteral, '"' :: cs => stringEnd? 1 cs
  | newline, '\n' :: _ => some 1
  | whitespace, c :: _ => if Text.isBlank c then some 1 else none
  | intLiteral, c :: cs => if isDigit c then some (1 + (cs.takeWhile isDigit).length) else none
  | word, c :: cs => if isWordStart c then some (1 + (cs.takeWhile isWordPart).length) else none
  | other, c :: _ => if c = '\n' then none else some 1
  | _, _ => none

/-- No rule applies at the end of a text. -/
@[simp] theorem width?_nil (r : Rule) : r.width? [] = none := by cases r <;> rfl

theorem commentEnd?_gt {n m : Nat} {cs : List Char} (h : commentEnd? n cs = some m) : n < m := by
  fun_induction commentEnd? n cs <;> simp_all <;> omega

theorem stringEnd?_gt {n m : Nat} {cs : List Char} (h : stringEnd? n cs = some m) : n < m := by
  fun_induction stringEnd? n cs <;> simp_all <;> omega

theorem charWidth?_pos {n : Nat} {cs : List Char} (h : charWidth? cs = some n) : 0 < n := by
  unfold charWidth? at h
  split at h <;> simp_all <;> omega

/-- A rule that applies takes at least one character. -/
theorem width?_pos {r : Rule} {cs : List Char} {n : Nat} (h : r.width? cs = some n) : 0 < n := by
  unfold width? at h
  split at h
  · exact Nat.lt_of_le_of_lt (Nat.zero_le _) (commentEnd?_gt h)
  · simp_all; omega
  · simp_all; omega
  · exact charWidth?_pos h
  · exact Nat.lt_of_le_of_lt (Nat.zero_le _) (stringEnd?_gt h)
  all_goals simp_all <;> omega

end Rule

end Drac.Lexer
