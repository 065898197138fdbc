import Drac.Category
import Drac.Json

/-!
# Counters of a run of the lexer

## Main definitions

* `Metrics` — how many tokens of each class, comments and lines have been passed.
* `Metrics.countToken`, `Metrics.countComment` — one more token, one more comment.
* `Metrics.toJson` — the counters as a record.
-/

namespace Drac.Lexer

/-- How often each category was seen, in declaration order and without those never seen. -/
abbrev Histogram := List (Category × Nat)

/-- Counts a category once more. -/
def Histogram.count (c : Category) : Histogram → Histogram
  | [] => [(c, 1)]
  | (d, n) :: h =>
    if d = c then (d, n + 1) :: h
    else if c.index < d.index then (c, 1) :: (d, n) :: h
    else (d, n) :: count c h

/-- What has been passed so far. -/
structure Metrics where
  /-- Tokens, the end of the input not counted. -/
  totalTokens : Nat
  /-- Reserved words other than literals. -/
  keywordTokens : Nat
  /-- Identifiers. -/
  identifierTokens : Nat
  /-- Literals. -/
  literalTokens : Nat
  /-- Operators. -/
  operatorTokens : Nat
  /-- Punctuation. -/
  punctuationTokens : Nat
  /-- Characters that start no token. -/
  illegalChars : Nat
  /-- Comments. -/
  commentCount : Nat
  /-- Lines, the one that is being read included. -/
  lineCount : Nat
  /-- How often each category was seen, if that is asked for. -/
  categoryCounts : Option Histogram
  deriving DecidableEq, Repr

namespace Metrics

/-- The counters before the first character. -/
def initial (trackCategories : Bool) : Metrics :=
  ⟨0, 0, 0, 0, 0, 0, 0, 0, 1, if trackCategories then some [] else none⟩

/-- One more token of a category. -/
def countToken (m : Metrics) (c : Category) : Metrics :=
  let m := { m with
    totalTokens := m.totalTokens + 1
    categoryCounts := m.categoryCounts.map (Histogram.count c) }
  if c.isLiteral then { m with literalTokens := m.literalTokens + 1 }
  else if c.isKeyword then { m with keywordTokens := m.keywordTokens + 1 }
  else if c.isOperator then { m with operatorTokens := m.operatorTokens + 1 }
  else if c.isPunctuation then { m with punctuationTokens := m.punctuationTokens + 1 }
  else if c = .identifier then { m with identifierTokens := m.identifierTokens + 1 }
  else if c = .illegalChar then { m with illegalChars := m.illegalChars + 1 }
  else m

/-- One more comment. -/
def countComment (m : Metrics) : Metrics := { m with commentCount := m.commentCount + 1 }

/-- The counters with a new number of lines. -/
def atLine (m : Metrics) (line : Nat) : Metrics := { m with lineCount := line }

/-- The counters as a record; the categories are left out where they were not asked for. -/
def toJson (m : Metrics) : Json :=
  .object <|
    [("total_tokens", .ofNat m.totalTokens), ("keyword_tokens", .ofNat m.keywordTokens),
      ("identifier_tokens", .ofNat m.identifierTokens), ("literal_tokens", .ofNat m.literalTokens),
      ("operator_tokens", .ofNat m.operatorTokens),
      ("punctuation_tokens", .ofNat m.punctuationTokens), ("illegal_chars", .ofNat m.illegalChars),
      ("comment_count", .ofNat m.commentCount), ("line_count", .ofNat m.lineCount)] ++
    match m.categoryCounts with
    | none => []
    | some h => [("category_counts", .object (h.map fun e => (e.1.name, .ofNat e.2)))]

end Metrics

end Drac.Lexer
