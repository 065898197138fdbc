import Drac.Json

/-!
# Reading records from JSON

A record is read in two steps.  The text is first cut into its members, which checks the grammar of
every member but looks into none of them; the members that the record asks for are then read each
by its own rule.  A member that nobody asks for may therefore hold anything that the grammar allows.

## Main definitions

* `Json.afterValue?` — what follows a value, if there is one.
* `Json.members?`, `Json.items?` — the members of an object, the items of an array.
* `Json.textOf?`, `natOf?`, `boolOf?`, `optionalTextOf?`, `variantOf?` — the rules for one value.
* `Json.fields?` — the values of the named fields of a record, in the order of the names.

## Main results

* `Json.afterText?_lt`, `Json.afterNumber?_lt` — a scan takes at least one character.
-/

namespace Drac.Json

/-! ### Blanks, digits and texts -/

/-- The four characters that may stand between the parts of a JSON text. -/
def isBlank (c : Char) : Bool := c == ' ' || c == '\t' || c == '\n' || c == '\r'

/-- What follows the blanks at the start. -/
def dropBlanks (cs : List Char) : List Char := cs.dropWhile isBlank

theorem dropBlanks_le (cs : List Char) : (dropBlanks cs).length ≤ cs.length :=
  (List.dropWhile_suffix isBlank).length_le

theorem length_lt_of_dropBlanks {cs r : List Char} {c : Char} (h : dropBlanks cs = c :: r) :
    r.length < cs.length := by
  have hle := dropBlanks_le cs
  rw [h, List.length_cons] at hle
  exact hle

/-- The value of a hexadecimal digit in either case. -/
def hexValue? (c : Char) : Option Nat :=
  if '0' ≤ c ∧ c ≤ '9' then some (c.toNat - 48)
  else if 'a' ≤ c ∧ c ≤ 'f' then some (c.toNat - 87)
  else if 'A' ≤ c ∧ c ≤ 'F' then some (c.toNat - 55)
  else none

/-- The value of four hexadecimal digits. -/
def codeUnit? (a b c d : Char) : Option Nat :=
  match hexValue? a, hexValue? b, hexValue? c, hexValue? d with
  | some a, some b, some c, some d => some (((a * 16 + b) * 16 + c) * 16 + d)
  | _, _, _, _ => none

/-- The character that a backslash and a letter stand for. -/
def shortEscape? (c : Char) : Option Char :=
  if c = '"' then some '"'
  else if c = '\\' then some '\\'
  else if c = '/' then some '/'
  else if c = 'b' then some '\x08'
  else if c = 'f' then some '\x0c'
  else if c = 'n' then some '\n'
  else if c = 'r' then some '\r'
  else if c = 't' then some '\t'
  else none

/-- What follows a text whose opening quote has been read.  Control characters must be escaped. -/
def afterText? : List Char → Option (List Char)
  | [] => none
  | '"' :: r => some r
  | '\\' :: 'u' :: a :: b :: c :: d :: r =>
    if (codeUnit? a b c d).isSome then afterText? r else none
  | '\\' :: c :: r => if (shortEscape? c).isSome then afterText? r else none
  | c :: r => if c.toNat < 0x20 then none else afterText? r

theorem afterText?_lt {cs r : List Char} (h : afterText? cs = some r) : r.length < cs.length := by
  fun_induction afterText? cs with
  | case1 | case4 | case6 | case7 => cases h
  | case2 rest =>
    cases h
    exact Nat.lt_succ_self _
  | case3 a b c d rest _ ih =>
    have hrest : r.length < rest.length := ih h
    simp only [List.length_cons]
    omega
  | case5 c rest _ _ ih =>
    have hrest : r.length < rest.length := ih h
    simp only [List.length_cons]
    omega
  | case8 c rest _ _ _ _ ih => exact Nat.lt_succ_of_lt (ih h)

/-- Reads a text up to its closing quote; the characters read before are kept in reverse.  An
escaped code unit above the basic plane must come as a pair. -/
def unescape? (seen : List Char) : List Char → Option (List Char)
  | [] => none
  | '"' :: _ => some seen.reverse
  | '\\' :: 'u' :: a :: b :: c :: d :: r =>
    match codeUnit? a b c d with
    | none => none
    | some u =>
      if 0xd800 ≤ u ∧ u < 0xdc00 then
        match r with
        | '\\' :: 'u' :: w :: x :: y :: z :: r =>
          match codeUnit? w x y z with
          | none => none
          | some l =>
            if 0xdc00 ≤ l ∧ l < 0xe000 then
              unescape? (Char.ofNat (0x10000 + (u - 0xd800) * 0x400 + (l - 0xdc00)) :: seen) r
            else none
        | _ => none
      else if 0xdc00 ≤ u ∧ u < 0xe000 then none
      else unescape? (Char.ofNat u :: seen) r
  | '\\' :: c :: r =>
    match shortEscape? c with
    | none => none
    | some e => unescape? (e :: seen) r
  | c :: r => if c.toNat < 0x20 then none else unescape? (c :: seen) r

/-! ### Values -/

/-- Whether a character is a decimal digit. -/
def isDigit (c : Char) : Bool := '0' ≤ c && c ≤ '9'

/-- What follows one digit or more. -/
def afterDigits? : List Char → Option (List Char)
  | [] => none
  | c :: r => if isDigit c then some (r.dropWhile isDigit) else none

/-- What follows the fraction of a number, if it has one. -/
def afterFraction? : List Char → Option (List Char)
  | '.' :: r => afterDigits? r
  | cs => some cs

/-- What follows the exponent of a number, if it has one. -/
def afterExponent? : List Char → Option (List Char)
  | c :: r =>
    if c = 'e' ∨ c = 'E' then
      match r with
      | '+' :: r => afterDigits? r
      | '-' :: r => afterDigits? r
      | r => afterDigits? r
    else some (c :: r)
  | [] => some []

/-- What follows the digits before the point: a zero stands alone. -/
def afterWhole? : List Char → Option (List Char)
  | [] => none
  | '0' :: r => if (r.head?.map isDigit).getD false then none else some r
  | cs => afterDigits? cs

/-- What follows a number. -/
def afterNumber? (cs : List Char) : Option (List Char) :=
  (afterWhole? (if cs.head? = some '-' then cs.tail else cs)).bind fun r =>
    (afterFraction? r).bind afterExponent?

theorem afterDigits?_lt {cs r : List Char} (h : afterDigits? cs = some r) :
    r.length < cs.length := by
  cases cs with
  | nil => cases h
  | cons c cs =>
    rw [afterDigits?] at h
    split at h
    · cases h
      exact Nat.lt_succ_of_le (List.dropWhile_suffix isDigit).length_le
    · cases h

theorem afterFraction?_le {cs r : List Char} (h : afterFraction? cs = some r) :
    r.length ≤ cs.length := by
  unfold afterFraction? at h
  split at h
  · exact Nat.le_succ_of_le (Nat.le_of_lt (afterDigits?_lt h))
  · cases h
    exact Nat.le_refl _

theorem afterExponent?_le {cs r : List Char} (h : afterExponent? cs = some r) :
    r.length ≤ cs.length := by
  unfold afterExponent? at h
  split at h
  · next c rest =>
    split at h
    · have hrest : r.length < rest.length := by
        split at h
        · exact Nat.lt_succ_of_lt (afterDigits?_lt h)
        · exact Nat.lt_succ_of_lt (afterDigits?_lt h)
        · exact afterDigits?_lt h
      exact Nat.le_succ_of_le (Nat.le_of_lt hrest)
    · cases h
      exact Nat.le_refl _
  · cases h
    exact Nat.le_refl _

theorem afterWhole?_lt {cs r : List Char} (h : afterWhole? cs = some r) :
    r.length < cs.length := by
  unfold afterWhole? at h
  split at h
  · cases h
  · split at h
    · cases h
    · cases h
      exact Nat.lt_succ_self _
  · exact afterDigits?_lt h

theorem afterNumber?_lt {cs r : List Char} (h : afterNumber? cs = some r) :
    r.length < cs.length := by
  simp only [afterNumber?, Option.bind_eq_some_iff] at h
  obtain ⟨a, ha, b, hb, hr⟩ := h
  have hwhole := afterWhole?_lt ha
  have hfraction : b.length ≤ a.length := afterFraction?_le hb
  have hexponent : r.length ≤ b.length := afterExponent?_le hr
  have htail : cs.tail.length ≤ cs.length := by simp
  split at hwhole <;> omega

/-- What a value is read inside of. -/
inductive Enclosure
  /-- An array. -/
  | array
  /-- An object. -/
  | object
  deriving DecidableEq, Repr

/-- What follows a key and its colon; the key's opening quote is still to be read. -/
def afterKey? (cs : List Char) : Option (List Char) :=
  match dropBlanks cs with
  | '"' :: r =>
    match afterText? r with
    | none => none
    | some r =>
      match dropBlanks r with
      | ':' :: r => some r
      | _ => none
  | _ => none

theorem afterKey?_lt {cs r : List Char} (h : afterKey? cs = some r) : r.length < cs.length := by
  unfold afterKey? at h
  split at h
  · next key hquote =>
    have hkey : key.length < cs.length := length_lt_of_dropBlanks hquote
    split at h
    · cases h
    · next rest htext =>
      have hrest : rest.length < key.length := afterText?_lt htext
      split at h
      · next value hcolon =>
        cases h
        have hvalue : r.length < rest.length := length_lt_of_dropBlanks hcolon
        omega
      · cases h
  · cases h

set_option linter.unusedVariables false in
mutual

/-- What follows a value and the ends of all that encloses it. -/
def afterValueIn? (outer : List Enclosure) (cs : List Char) : Option (List Char) :=
  match hb : dropBlanks cs with
  | '"' :: r =>
    match h : afterText? r with
    | none => none
    | some r' => afterItemIn? outer r'
  | '[' :: r =>
    match h : dropBlanks r with
    | ']' :: r' => afterItemIn? outer r'
    | _ => afterValueIn? (.array :: outer) r
  | '\x7b' :: r =>
    match h : dropBlanks r with
    | '\x7d' :: r' => afterItemIn? outer r'
    | _ =>
      match h' : afterKey? r with
      | none => none
      | some r' => afterValueIn? (.object :: outer) r'
  | 't' :: 'r' :: 'u' :: 'e' :: r => afterItemIn? outer r
  | 'f' :: 'a' :: 'l' :: 's' :: 'e' :: r => afterItemIn? outer r
  | 'n' :: 'u' :: 'l' :: 'l' :: r => afterItemIn? outer r
  | r =>
    match h : afterNumber? r with
    | none => none
    | some r' => afterItemIn? outer r'
termination_by cs.length
decreasing_by
  all_goals have hstart := dropBlanks_le cs
  all_goals simp only [hb, List.length_cons] at hstart
  all_goals first
    | omega
    | have htext := afterText?_lt h; omega
    | have hclose := length_lt_of_dropBlanks h; omega
    | have hkey := afterKey?_lt h'; omega
    | have hnumber := afterNumber?_lt h; omega

/-- What follows the ends of all that encloses a value that has been read. -/
def afterItemIn? (outer : List Enclosure) (cs : List Char) : Option (List Char) :=
  match outer with
  | [] => some cs
  | .array :: outer =>
    match hb : dropBlanks cs with
    | ',' :: r => afterValueIn? (.array :: outer) r
    | ']' :: r => afterItemIn? outer r
    | _ => none
  | .object :: outer =>
    match hb : dropBlanks cs with
    | ',' :: r =>
      match h : afterKey? r with
      | none => none
      | some r' => afterValueIn? (.object :: outer) r'
    | '\x7d' :: r => afterItemIn? outer r
    | _ => none
termination_by cs.length
decreasing_by
  all_goals have hstart := dropBlanks_le cs
  all_goals simp only [hb, List.length_cons] at hstart
  all_goals first
    | omega
    | have hkey := afterKey?_lt h; omega

end

mutual

theorem afterValueIn?_lt {outer : List Enclosure} {cs r : List Char}
    (h : afterValueIn? outer cs = some r) : r.length < cs.length := by
  rw [afterValueIn?] at h
  split at h
  -- a text
  next text hquote =>
    have htext : text.length < cs.length := length_lt_of_dropBlanks hquote
    split at h
    · cases h
    next rest hrest =>
      have hlt : rest.length < text.length := afterText?_lt hrest
      have hle : r.length ≤ rest.length := afterItemIn?_le h
      omega
  -- an array
  next items hopen =>
    have hitems : items.length < cs.length := length_lt_of_dropBlanks hopen
    split at h
    next rest hclose =>
      have hlt : rest.length < items.length := length_lt_of_dropBlanks hclose
      have hle : r.length ≤ rest.length := afterItemIn?_le h
      omega
    · have hlt : r.length < items.length := afterValueIn?_lt h
      omega
  -- an object
  next members hopen =>
    have hmembers : members.length < cs.length := length_lt_of_dropBlanks hopen
    split at h
    next rest hclose =>
      have hlt : rest.length < members.length := length_lt_of_dropBlanks hclose
      have hle : r.length ≤ rest.length := afterItemIn?_le h
      omega
    · split at h
      · cases h
      next value hkey =>
        have hvalue : value.length < members.length := afterKey?_lt hkey
        have hlt : r.length < value.length := afterValueIn?_lt h
        omega
  -- a truth value, or null
  next rest hword =>
    have hrest : rest.length + 3 < cs.length := length_lt_of_dropBlanks hword
    have hle : r.length ≤ rest.length := afterItemIn?_le h
    omega
  next rest hword =>
    have hrest : rest.length + 4 < cs.length := length_lt_of_dropBlanks hword
    have hle : r.length ≤ rest.length := afterItemIn?_le h
    omega
  next rest hword =>
    have hrest : rest.length + 3 < cs.length := length_lt_of_dropBlanks hword
    have hle : r.length ≤ rest.length := afterItemIn?_le h
    omega
  -- a number
  · have hblanks : (dropBlanks cs).length ≤ cs.length := dropBlanks_le cs
    split at h
    · cases h
    next rest hrest =>
      have hlt : rest.length < (dropBlanks cs).length := afterNumber?_lt hrest
      have hle : r.length ≤ rest.length := afterItemIn?_le h
      omega
termination_by cs.length
decreasing_by all_goals omega

theorem afterItemIn?_le {outer : List Enclosure} {cs r : List Char}
    (h : afterItemIn? outer cs = some r) : r.length ≤ cs.length := by
  rw [afterItemIn?.eq_def] at h
  split at h
  · cases h
    exact Nat.le_refl _
  -- in an array
  · split at h
    next rest hcomma =>
      have hrest : rest.length < cs.length := length_lt_of_dropBlanks hcomma
      have hlt : r.length < rest.length := afterValueIn?_lt h
      omega
    next rest hclose =>
      have hrest : rest.length < cs.length := length_lt_of_dropBlanks hclose
      have hle : r.length ≤ rest.length := afterItemIn?_le h
      omega
    · cases h
  -- in an object
  · split at h
    next rest hcomma =>
      have hrest : rest.length < cs.length := length_lt_of_dropBlanks hcomma
      split at h
      · cases h
      next value hkey =>
        have hvalue : value.length < rest.length := afterKey?_lt hkey
        have hlt : r.length < value.length := afterValueIn?_lt h
        omega
    next rest hclose =>
      have hrest : rest.length < cs.length := length_lt_of_dropBlanks hclose
      have hle : r.length ≤ rest.length := afterItemIn?_le h
      omega
    · cases h
termination_by cs.length
decreasing_by all_goals omega

end

/-- What follows a value. -/
def afterValue? (cs : List Char) : Option (List Char) := afterValueIn? [] cs

theorem afterValue?_lt {cs r : List Char} (h : afterValue? cs = some r) : r.length < cs.length :=
  afterValueIn?_lt h

/-! ### The parts of a value -/

/-- The text of a value, given what follows it. -/
def valueText (cs rest : List Char) : List Char :=
  (dropBlanks cs).take ((dropBlanks cs).length - rest.length)

/-- The text that a quoted text stands for. -/
def textOf? : List Char → Option String
  | '"' :: r => (unescape? [] r).map String.ofList
  | _ => none

set_option linter.unusedVariables false in
/-- The members of an object from a key on, and what follows the object. -/
def membersFrom? (seen : List (String × List Char)) (cs : List Char) :
    Option (List (String × List Char) × List Char) :=
  match textOf? (dropBlanks cs), hk : afterKey? cs with
  | some key, some v =>
    match hv : afterValue? v with
    | none => none
    | some rest =>
      let seen := (key, valueText v rest) :: seen
      match hb : dropBlanks rest with
      | ',' :: r => membersFrom? seen r
      | '\x7d' :: r => some (seen.reverse, r)
      | _ => none
  | _, _ => none
termination_by cs.length
decreasing_by
  have hkey : v.length < cs.length := afterKey?_lt hk
  have hvalue : rest.length < v.length := afterValue?_lt hv
  have hnext : r.length < rest.length := length_lt_of_dropBlanks hb
  omega

set_option linter.unusedVariables false in
/-- The items of an array from a value on, and what follows the array. -/
def itemsFrom? (seen : List (List Char)) (cs : List Char) :
    Option (List (List Char) × List Char) :=
  match hv : afterValue? cs with
  | none => none
  | some rest =>
    let seen := valueText cs rest :: seen
    match hb : dropBlanks rest with
    | ',' :: r => itemsFrom? seen r
    | ']' :: r => some (seen.reverse, r)
    | _ => none
termination_by cs.length
decreasing_by
  have hvalue : rest.length < cs.length := afterValue?_lt hv
  have hnext : r.length < rest.length := length_lt_of_dropBlanks hb
  omega

/-- The result of a reader that has read the whole text. -/
def whole? {α : Type} : Option (α × List Char) → Option α
  | some (a, rest) => if dropBlanks rest = [] then some a else none
  | none => none

/-- The members of a text that is one object: each key with the text of its value. -/
def members? (cs : List Char) : Option (List (String × List Char)) :=
  match dropBlanks cs with
  | '\x7b' :: r =>
    match dropBlanks r with
    | '\x7d' :: rest => whole? (some ([], rest))
    | _ => whole? (membersFrom? [] r)
  | _ => none

/-- The items of a text that is one array: the text of each value. -/
def items? (cs : List Char) : Option (List (List Char)) :=
  match dropBlanks cs with
  | '[' :: r =>
    match dropBlanks r with
    | ']' :: rest => whole? (some ([], rest))
    | _ => whole? (itemsFrom? [] r)
  | _ => none

/-! ### Rules for one value -/

/-- The largest number that a count or a position can be. -/
def maxNat : Nat := 0xffffffffffffffff

/-- A natural number of at most 64 bits, in digits alone. -/
def natOf? (cs : List Char) : Option Nat :=
  if cs ≠ [] ∧ cs.all isDigit then
    let n := cs.foldl (fun n c => 10 * n + (c.toNat - 48)) 0
    if n ≤ maxNat then some n else none
  else none

/-- A truth value. -/
def boolOf? (cs : List Char) : Option Bool :=
  if cs = ['t', 'r', 'u', 'e'] then some true
  else if cs = ['f', 'a', 'l', 's', 'e'] then some false
  else none

/-- Whether a value is `null`. -/
def isNull (cs : List Char) : Bool := cs == ['n', 'u', 'l', 'l']

/-- A text, or `null` for none. -/
def optionalTextOf? (cs : List Char) : Option (Option String) :=
  if isNull cs then some none else (textOf? cs).map some

/-- The name of one of several cases: a text, or an object with that name alone and no content. -/
def variantOf? (cs : List Char) : Option String :=
  match textOf? cs, members? cs with
  | some name, _ => some name
  | none, some [(name, content)] => if isNull content then some name else none
  | none, _ => none

/-! ### Records -/

/-- The value of one field: a field that is given twice is an error. -/
def field? (name : String) (members : List (String × List Char)) : Option (Option (List Char)) :=
  match members.filter fun m => m.1 == name with
  | [] => some none
  | [m] => some (some m.2)
  | _ => none

/-- The values of the named fields of a record, in the order of the names.  In an object a field may
be missing and other members are passed over; an array lists the values of all fields. -/
def fields? (names : List String) (cs : List Char) : Option (List (Option (List Char))) :=
  match members? cs with
  | some members => names.mapM fun name => field? name members
  | none =>
    match items? cs with
    | some items => if items.length = names.length then some (items.map some) else none
    | none => none

end Drac.Json
