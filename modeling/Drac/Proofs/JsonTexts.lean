import Drac.Json.Reader
import Mathlib.Data.List.Basic
import Mathlib.Data.List.TakeWhile
import Mathlib.Data.Nat.Notation
import Mathlib.Tactic.SplitIfs

/-!
# Reading what has been written

The reader takes a JSON text apart by character, and the writer puts it together from pieces.  Whatever piece
the writer makes, the reader takes exactly that piece off the front of a text and goes on with what stands
behind it.  A number is the only piece that does not tell its own end: what stands behind it must not belong
to a number.

## Main definitions

* `Json.Closes` — what may stand behind a value.
* `Json.WellFormed` — the number literals of a value are numbers.
* `Json.TakenOff` — the reader goes on right behind the text of a value.

## Main results

* `Json.unescape?_escaped`, `textOf?_quoted` — a quoted text is read as that text.
* `Json.afterNumber?_append`, `afterNumber?_toString` — where a number ends.
* `Json.natOf?_toString` — a natural number is read as that number.
* `Json.WellFormed.takenOff` — a written value is taken off as one value.
* `Json.members?_compact` — **a written object is cut into its members**, whatever their values are.
-/

namespace Drac.Json

variable {cs r rest : List Char}

theorem dropBlanks_cons {c : Char} (h : isBlank c = false) (cs : List Char) :
    dropBlanks (c :: cs) = c :: cs := by
  rw [dropBlanks, List.dropWhile_cons_of_neg (by simp [h])]

/-! ### Texts -/

/-- A control character is written with the four digits of its code. -/
theorem codeUnit?_control : ∀ n < 0x20,
    codeUnit? '0' '0' (hexDigit (n / 16)) (hexDigit (n % 16)) = some n := by decide

/-- A written character does not end a text. -/
theorem afterText?_escaped (c : Char) (r : List Char) :
    afterText? (escaped c ++ r) = afterText? r := by
  unfold escaped
  split_ifs with hquote hbackslash h1 h2 h3 h4 h5 hcontrol
  · rfl
  · rfl
  · rfl
  · rfl
  · rfl
  · rfl
  · rfl
  · simp [afterText?, codeUnit?_control _ hcontrol]
  · rw [List.singleton_append, afterText?, if_neg hcontrol]
    · exact hquote
    · intro _ _ _ _ _ hc
      exact absurd hc hbackslash
    · intro _ _ hc
      exact absurd hc hbackslash

/-- A written character is read as that character. -/
theorem unescape?_escaped (seen : List Char) (c : Char) (r : List Char) :
    unescape? seen (escaped c ++ r) = unescape? (c :: seen) r := by
  unfold escaped
  split_ifs with hquote hbackslash h1 h2 h3 h4 h5 hcontrol
  · subst hquote; rfl
  · subst hbackslash; rfl
  · subst h1; rfl
  · subst h2; rfl
  · subst h3; rfl
  · subst h4; rfl
  · subst h5; rfl
  · -- a control character is not half of a pair
    have hhigh : ¬ 0xd800 ≤ c.toNat := by omega
    have hlow : ¬ 0xdc00 ≤ c.toNat := by omega
    simp [unescape?, codeUnit?_control _ hcontrol, hhigh, hlow]
  · rw [List.singleton_append, unescape?, if_neg hcontrol]
    · exact hquote
    · intro _ _ _ _ _ hc
      exact absurd hc hbackslash
    · intro _ _ hc
      exact absurd hc hbackslash

theorem toList_quoted (s : String) :
    (quoted s).toList = '"' :: (s.toList.flatMap escaped ++ ['"']) := by
  simp [quoted]

/-- A quoted text ends at its closing quote. -/
theorem afterText?_quoted (cs r : List Char) :
    afterText? (cs.flatMap escaped ++ '"' :: r) = some r := by
  induction cs with
  | nil => rfl
  | cons c cs ih => rw [List.flatMap_cons, List.append_assoc, afterText?_escaped, ih]

theorem unescape?_quoted (seen cs r : List Char) :
    unescape? seen (cs.flatMap escaped ++ '"' :: r) = some (seen.reverse ++ cs) := by
  induction cs generalizing seen with
  | nil =>
    rw [List.append_nil]
    rfl
  | cons c cs ih =>
    rw [List.flatMap_cons, List.append_assoc, unescape?_escaped, ih, List.reverse_cons,
      List.append_assoc, List.singleton_append]

/-- A quoted text is read as that text. -/
theorem textOf?_quoted (s : String) (r : List Char) :
    textOf? ((quoted s).toList ++ r) = some s := by
  rw [toList_quoted, List.cons_append, List.append_assoc, List.singleton_append, textOf?,
    unescape?_quoted]
  simp

/-- A key and its colon are taken off as one. -/
theorem afterKey?_quoted (k : String) (r : List Char) :
    afterKey? ((quoted k).toList ++ ':' :: r) = some r := by
  rw [toList_quoted, List.cons_append, List.append_assoc, List.singleton_append, afterKey?,
    dropBlanks_cons (by decide)]
  simp only [afterText?_quoted]
  rfl

/-! ### Numbers -/

/-- What may stand behind a value: nothing, a comma, or the end of what encloses it. -/
inductive Closes : List Char → Prop
  | nil : Closes []
  | comma (r : List Char) : Closes (',' :: r)
  | bracket (r : List Char) : Closes (']' :: r)
  | brace (r : List Char) : Closes ('\x7d' :: r)

theorem Closes.dropWhile_append (hrest : Closes rest) (cs : List Char) :
    (cs ++ rest).dropWhile isDigit = cs.dropWhile isDigit ++ rest := by
  have hstop : rest.dropWhile isDigit = rest := by cases hrest <;> rfl
  rw [List.dropWhile_append]
  split
  next hnil => rw [hstop, List.isEmpty_iff.mp hnil, List.nil_append]
  · rfl

theorem afterDigits?_append (h : afterDigits? cs = some r) (hrest : Closes rest) :
    afterDigits? (cs ++ rest) = some (r ++ rest) := by
  cases cs with
  | nil => cases h
  | cons c cs =>
    rw [afterDigits?] at h
    rw [List.cons_append, afterDigits?, hrest.dropWhile_append]
    split at h
    next hc =>
      cases h
      rw [if_pos hc]
    · cases h

theorem afterFraction?_append (h : afterFraction? cs = some r) (hrest : Closes rest) :
    afterFraction? (cs ++ rest) = some (r ++ rest) := by
  unfold afterFraction? at h
  split at h
  · exact afterDigits?_append h hrest
  next hpoint =>
    cases h
    cases cs with
    | nil => cases hrest <;> rfl
    | cons c cs =>
      rw [List.cons_append, afterFraction?]
      rintro _ ⟨⟩
      exact hpoint _ rfl

theorem afterExponent?_append (h : afterExponent? cs = some r) (hrest : Closes rest) :
    afterExponent? (cs ++ rest) = some (r ++ rest) := by
  cases cs with
  | nil =>
    cases h
    cases hrest <;> rfl
  | cons c cs =>
    rw [afterExponent?.eq_def] at h
    rw [List.cons_append, afterExponent?.eq_def]
    dsimp only at h ⊢
    split at h
    next he =>
      rw [if_pos he]
      split at h
      · exact afterDigits?_append h hrest
      · exact afterDigits?_append h hrest
      next hplus hminus =>
        cases cs with
        | nil => cases h
        | cons d cs =>
          rw [← afterDigits?_append h hrest]
          split
          next heq =>
            cases heq
            exact absurd rfl (hplus cs)
          next heq =>
            cases heq
            exact absurd rfl (hminus cs)
          · rfl
    next he =>
      cases h
      rw [if_neg he]
      rfl

theorem afterWhole?_append (h : afterWhole? cs = some r) (hrest : Closes rest) :
    afterWhole? (cs ++ rest) = some (r ++ rest) := by
  unfold afterWhole? at h
  split at h
  · cases h
  next cs =>
    split at h
    · cases h
    next hdigit =>
      cases h
      rw [List.cons_append, afterWhole?, if_neg]
      cases r with
      | nil => cases hrest <;> exact Bool.false_ne_true
      | cons => exact hdigit
  next hnil hzero =>
    rw [← afterDigits?_append h hrest]
    cases cs with
    | nil => exact absurd rfl hnil
    | cons c cs =>
      rw [List.cons_append, afterWhole?]
      · exact List.cons_ne_nil _ _
      · rintro _ ⟨⟩
        exact hzero _ rfl

/-- A number ends before what may stand behind a value. -/
theorem afterNumber?_append (h : afterNumber? cs = some r) (hrest : Closes rest) :
    afterNumber? (cs ++ rest) = some (r ++ rest) := by
  simp only [afterNumber?, Option.bind_eq_some_iff] at h ⊢
  obtain ⟨whole, hwhole, fraction, hfraction, hexponent⟩ := h
  refine ⟨_, ?_, _, afterFraction?_append hfraction hrest, afterExponent?_append hexponent hrest⟩
  rw [← afterWhole?_append hwhole hrest]
  cases cs with
  | nil => cases hwhole
  | cons c cs =>
    rw [List.cons_append, List.head?_cons, List.head?_cons]
    split <;> rfl

/-- A number starts with a digit or with a sign. -/
theorem exists_cons_of_afterNumber? (h : afterNumber? cs = some r) :
    ∃ c tail, cs = c :: tail ∧ (c = '-' ∨ isDigit c = true) := by
  cases cs with
  | nil => cases h
  | cons c cs =>
    refine ⟨c, cs, rfl, ?_⟩
    by_cases hc : c = '-'
    · exact .inl hc
    · right
      rw [afterNumber?, List.head?_cons, if_neg (by simpa using hc), Option.bind_eq_some_iff] at h
      obtain ⟨r, hr, -⟩ := h
      unfold afterWhole? at hr
      split at hr
      next heq => cases heq
      next heq =>
        cases heq
        decide
      · rw [afterDigits?] at hr
        split at hr
        next hdigit => exact hdigit
        · cases hr

/-! ### Natural numbers -/

theorem isDigit_of_mem_toDigits {c : Char} {n : ℕ} (h : c ∈ Nat.toDigits 10 n) : isDigit c = true :=
  Nat.isDigit_of_mem_toDigits (by decide) (by decide) h

/-- Only zero is written with a zero in front. -/
theorem head?_toDigits_ne_zero {n : ℕ} (h : 0 < n) : (Nat.toDigits 10 n).head? ≠ some '0' := by
  induction n using Nat.strongRecOn with
  | ind n ih =>
    by_cases hn : n < 10
    · have hone : ∀ d < 10, 0 < d → [Nat.digitChar d].head? ≠ some '0' := by decide
      rw [Nat.toDigits_of_lt_base hn]
      exact hone n hn h
    · have hten : 10 ≤ n := Nat.not_lt.mp hn
      rw [Nat.toDigits_of_base_le (by decide) hten, List.head?_append_of_ne_nil _ Nat.toDigits_ne_nil]
      exact ih _ (Nat.div_lt_self h (by decide)) (Nat.div_pos hten (by decide))

/-- The digits of a natural number are a number. -/
theorem afterNumber?_toString (n : ℕ) : afterNumber? (toString n).toList = some [] := by
  rw [Nat.toString_eq_repr, Nat.toList_repr]
  rcases Nat.eq_zero_or_pos n with rfl | hpos
  · rfl
  obtain ⟨c, cs, hcs⟩ := List.exists_cons_of_ne_nil (Nat.toDigits_ne_nil (n := n) (b := 10))
  have hdigits : ∀ d ∈ c :: cs, isDigit d = true := by
    intro d hd
    exact isDigit_of_mem_toDigits (hcs ▸ hd)
  have hsign : c ≠ '-' := by
    rintro rfl
    exact absurd (hdigits '-' List.mem_cons_self) (by decide)
  have hzero : c ≠ '0' := by
    rintro rfl
    exact head?_toDigits_ne_zero hpos (by rw [hcs, List.head?_cons])
  have hwhole : afterWhole? (c :: cs) = some [] := by
    rw [afterWhole?]
    · rw [afterDigits?, if_pos (hdigits c List.mem_cons_self), List.dropWhile_eq_nil_iff.mpr]
      intro d hd
      exact hdigits d (List.mem_cons_of_mem c hd)
    · exact List.cons_ne_nil _ _
    · rintro _ ⟨⟩
      exact hzero rfl
  rw [hcs, afterNumber?, List.head?_cons, if_neg (by simpa using hsign), hwhole]
  rfl

/-- A natural number of at most 64 bits is read as that number. -/
theorem natOf?_toString {n : ℕ} (h : n ≤ maxNat) : natOf? (toString n).toList = some n := by
  have hall : (Nat.toDigits 10 n).all isDigit = true :=
    List.all_eq_true.mpr fun _ => isDigit_of_mem_toDigits
  have hvalue : (Nat.toDigits 10 n).foldl (fun n c => 10 * n + (c.toNat - 48)) 0 = n :=
    Nat.ofDigitChars_eq_foldl.symm.trans (Nat.ofDigitChars_toDigits (by decide) (by decide))
  rw [Nat.toString_eq_repr, Nat.toList_repr, natOf?, if_pos ⟨Nat.toDigits_ne_nil, hall⟩]
  dsimp only
  rw [hvalue, if_pos h]

/-! ### Values -/

/-- A value whose number literals are numbers. -/
inductive WellFormed : Json → Prop
  | null : WellFormed .null
  | bool (b : Bool) : WellFormed (.bool b)
  | number {literal : String} (h : afterNumber? literal.toList = some []) :
      WellFormed (.number literal)
  | string (s : String) : WellFormed (.string s)
  | array {items : List Json} (h : ∀ v ∈ items, WellFormed v) : WellFormed (.array items)
  | object {members : List (String × Json)} (h : ∀ m ∈ members, WellFormed m.2) :
      WellFormed (.object members)

/-- The text of a member: its key, a colon and its value. -/
def memberText (m : String × Json) : List Char := (quoted m.1).toList ++ ':' :: m.2.compact.toList

/-- The texts of values that stand behind another one. -/
def furtherItems (vs : List Json) : List Char := vs.flatMap fun v => ',' :: v.compact.toList

/-- The texts of members that stand behind another one. -/
def furtherMembers (ms : List (String × Json)) : List Char := ms.flatMap fun m => ',' :: memberText m

theorem compactItems_eq_map (vs : List Json) : compactItems vs = vs.map compact := by
  induction vs with
  | nil => rfl
  | cons v vs ih => rw [compactItems, ih, List.map_cons]

theorem compactMembers_eq_map (ms : List (String × Json)) :
    compactMembers ms = ms.map fun m => quoted m.1 ++ ":" ++ compact m.2 := by
  induction ms with
  | nil => rfl
  | cons m ms ih => rw [compactMembers, ih, List.map_cons]

theorem toList_intercalate_comma (s : String) (ss : List String) :
    (",".intercalate (s :: ss)).toList = s.toList ++ ss.flatMap fun s => ',' :: s.toList := by
  induction ss generalizing s with
  | nil => simp
  | cons t ss ih =>
    rw [String.intercalate_cons_cons, String.toList_append, String.toList_append, ih]
    simp

theorem toList_compact_array (v : Json) (vs : List Json) :
    (compact (.array (v :: vs))).toList =
      '[' :: (v.compact.toList ++ (furtherItems vs ++ [']'])) := by
  rw [compact, compactItems, String.toList_append, String.toList_append, toList_intercalate_comma,
    compactItems_eq_map, List.flatMap_map]
  simp [furtherItems]

theorem toList_compact_object (m : String × Json) (ms : List (String × Json)) :
    (compact (.object (m :: ms))).toList =
      '\x7b' :: (memberText m ++ (furtherMembers ms ++ ['\x7d'])) := by
  rw [compact, compactMembers, String.toList_append, String.toList_append, toList_intercalate_comma,
    compactMembers_eq_map, List.flatMap_map]
  simp [furtherMembers, memberText]

/-- No number starts like something else. -/
theorem start_of_number {c : Char} (hc : c = '-' ∨ isDigit c = true) :
    isBlank c = false ∧ c ∉ ['"', '[', ']', '\x7b', 't', 'f', 'n'] := by
  have hne (d : Char) (hd : (d == '-' || isDigit d) = false) : c ≠ d := by
    rintro rfl
    rw [Bool.or_eq_false_iff, beq_eq_false_iff_ne] at hd
    rcases hc with hc | hc
    · exact hd.1 hc
    · rw [hd.2] at hc
      cases hc
  constructor
  · simp [isBlank, hne ' ', hne '\t', hne '\n', hne '\r', isDigit]
  · simp [hne '"', hne '[', hne ']', hne '\x7b', hne 't', hne 'f', hne 'n', isDigit]

/-- A written value is told by its first character from a blank and from the end of an array. -/
theorem WellFormed.exists_cons {v : Json} (h : v.WellFormed) :
    ∃ c tail, v.compact.toList = c :: tail ∧ isBlank c = false ∧ c ≠ ']' := by
  cases h with
  | null => exact ⟨'n', _, rfl, by decide, by decide⟩
  | bool b => cases b <;> exact ⟨_, _, rfl, by decide, by decide⟩
  | number h =>
    obtain ⟨c, tail, hcs, hc⟩ := exists_cons_of_afterNumber? h
    obtain ⟨hblank, hne⟩ := start_of_number hc
    refine ⟨c, tail, hcs, hblank, ?_⟩
    rintro rfl
    exact hne (by decide)
  | string s => exact ⟨'"', _, toList_quoted s, by decide, by decide⟩
  | @array items h =>
    cases items with
    | nil => exact ⟨'[', _, rfl, by decide, by decide⟩
    | cons v vs => exact ⟨'[', _, toList_compact_array v vs, by decide, by decide⟩
  | @object members h =>
    cases members with
    | nil => exact ⟨'\x7b', _, rfl, by decide, by decide⟩
    | cons m ms => exact ⟨'\x7b', _, toList_compact_object m ms, by decide, by decide⟩

/-! ### One step of the reader -/

section

variable (outer : List Enclosure)

theorem afterValueIn?_quote (cs : List Char) :
    afterValueIn? outer ('"' :: cs) = (afterText? cs).bind (afterItemIn? outer) := by
  have hb := dropBlanks_cons (c := '"') (by decide) cs
  rw [afterValueIn?.eq_def]
  grind

theorem afterValueIn?_number {c : Char} (hc : c = '-' ∨ isDigit c = true)
    (h : afterNumber? (c :: cs) = some r) :
    afterValueIn? outer (c :: cs) = afterItemIn? outer r := by
  obtain ⟨hblank, hne⟩ := start_of_number hc
  have hb := dropBlanks_cons hblank cs
  rw [afterValueIn?.eq_def]
  grind

/-- An array that is not empty starts with a value. -/
theorem afterValueIn?_bracket {c : Char} (hblank : isBlank c = false) (hne : c ≠ ']') (cs : List Char) :
    afterValueIn? outer ('[' :: c :: cs) = afterValueIn? (.array :: outer) (c :: cs) := by
  have hb := dropBlanks_cons (c := '[') (by decide) (c :: cs)
  have hc := dropBlanks_cons hblank cs
  rw [afterValueIn?.eq_def]
  grind

/-- An object that is not empty starts with a key. -/
theorem afterValueIn?_brace (h : afterKey? ('"' :: cs) = some r) :
    afterValueIn? outer ('\x7b' :: '"' :: cs) = afterValueIn? (.object :: outer) r := by
  have hb := dropBlanks_cons (c := '\x7b') (by decide) ('"' :: cs)
  have hc := dropBlanks_cons (c := '"') (by decide) cs
  rw [afterValueIn?.eq_def]
  grind

theorem afterItemIn?_array_comma (cs : List Char) :
    afterItemIn? (.array :: outer) (',' :: cs) = afterValueIn? (.array :: outer) cs := by
  have hb := dropBlanks_cons (c := ',') (by decide) cs
  rw [afterItemIn?.eq_def]
  grind

theorem afterItemIn?_array_bracket (cs : List Char) :
    afterItemIn? (.array :: outer) (']' :: cs) = afterItemIn? outer cs := by
  have hb := dropBlanks_cons (c := ']') (by decide) cs
  rw [afterItemIn?.eq_def]
  grind

theorem afterItemIn?_object_comma (h : afterKey? cs = some r) :
    afterItemIn? (.object :: outer) (',' :: cs) = afterValueIn? (.object :: outer) r := by
  have hb := dropBlanks_cons (c := ',') (by decide) cs
  rw [afterItemIn?.eq_def]
  grind

theorem afterItemIn?_object_brace (cs : List Char) :
    afterItemIn? (.object :: outer) ('\x7d' :: cs) = afterItemIn? outer cs := by
  have hb := dropBlanks_cons (c := '\x7d') (by decide) cs
  rw [afterItemIn?.eq_def]
  grind

end

/-! ### Whole values -/

/-- The text of a value is taken off as one value, wherever it stands. -/
def TakenOff (v : Json) : Prop :=
  ∀ outer rest, Closes rest → afterValueIn? outer (v.compact.toList ++ rest) = afterItemIn? outer rest

theorem closes_furtherItems (vs : List Json) (rest : List Char) :
    Closes (furtherItems vs ++ ']' :: rest) := by
  cases vs with
  | nil => exact .bracket rest
  | cons v vs => exact .comma _

theorem closes_furtherMembers (ms : List (String × Json)) (rest : List Char) :
    Closes (furtherMembers ms ++ '\x7d' :: rest) := by
  cases ms with
  | nil => exact .brace rest
  | cons m ms => exact .comma _

theorem afterItemIn?_furtherItems {vs : List Json} (h : ∀ v ∈ vs, TakenOff v) (outer : List Enclosure)
    (rest : List Char) :
    afterItemIn? (.array :: outer) (furtherItems vs ++ ']' :: rest) = afterItemIn? outer rest := by
  induction vs with
  | nil => exact afterItemIn?_array_bracket outer rest
  | cons v vs ih =>
    have hv : TakenOff v := h v List.mem_cons_self
    have hvs : ∀ v ∈ vs, TakenOff v := fun w hw => h w (List.mem_cons_of_mem v hw)
    calc afterItemIn? (.array :: outer) (furtherItems (v :: vs) ++ ']' :: rest)
      _ = afterItemIn? (.array :: outer)
          (',' :: (v.compact.toList ++ (furtherItems vs ++ ']' :: rest))) := by simp [furtherItems]
      _ = afterValueIn? (.array :: outer) (v.compact.toList ++ (furtherItems vs ++ ']' :: rest)) :=
        afterItemIn?_array_comma ..
      _ = afterItemIn? (.array :: outer) (furtherItems vs ++ ']' :: rest) :=
        hv _ _ (closes_furtherItems vs rest)
      _ = afterItemIn? outer rest := ih hvs

theorem afterKey?_memberText (m : String × Json) (rest : List Char) :
    afterKey? (memberText m ++ rest) = some (m.2.compact.toList ++ rest) := by
  rw [memberText, List.append_assoc, List.cons_append, afterKey?_quoted]

theorem afterItemIn?_furtherMembers {ms : List (String × Json)} (h : ∀ m ∈ ms, TakenOff m.2)
    (outer : List Enclosure) (rest : List Char) :
    afterItemIn? (.object :: outer) (furtherMembers ms ++ '\x7d' :: rest) =
      afterItemIn? outer rest := by
  induction ms with
  | nil => exact afterItemIn?_object_brace outer rest
  | cons m ms ih =>
    have hm : TakenOff m.2 := h m List.mem_cons_self
    have hms : ∀ m ∈ ms, TakenOff m.2 := fun n hn => h n (List.mem_cons_of_mem m hn)
    calc afterItemIn? (.object :: outer) (furtherMembers (m :: ms) ++ '\x7d' :: rest)
      _ = afterItemIn? (.object :: outer)
          (',' :: (memberText m ++ (furtherMembers ms ++ '\x7d' :: rest))) := by simp [furtherMembers]
      _ = afterValueIn? (.object :: outer)
          (m.2.compact.toList ++ (furtherMembers ms ++ '\x7d' :: rest)) :=
        afterItemIn?_object_comma outer (afterKey?_memberText ..)
      _ = afterItemIn? (.object :: outer) (furtherMembers ms ++ '\x7d' :: rest) :=
        hm _ _ (closes_furtherMembers ms rest)
      _ = afterItemIn? outer rest := ih hms

theorem takenOff_array {vs : List Json} (hstart : ∀ v ∈ vs, v.WellFormed)
    (h : ∀ v ∈ vs, TakenOff v) : TakenOff (.array vs) := by
  intro outer rest _
  cases vs with
  | nil =>
    rw [afterValueIn?.eq_def]
    rfl
  | cons v vs =>
    obtain ⟨c, tail, hv, hblank, hne⟩ := (hstart v List.mem_cons_self).exists_cons
    calc afterValueIn? outer ((compact (.array (v :: vs))).toList ++ rest)
      _ = afterValueIn? outer ('[' :: (v.compact.toList ++ (furtherItems vs ++ ']' :: rest))) := by
        rw [toList_compact_array]
        simp
      _ = afterValueIn? (.array :: outer) (v.compact.toList ++ (furtherItems vs ++ ']' :: rest)) := by
        rw [hv]
        exact afterValueIn?_bracket outer hblank hne _
      _ = afterItemIn? (.array :: outer) (furtherItems vs ++ ']' :: rest) :=
        h v List.mem_cons_self _ _ (closes_furtherItems vs rest)
      _ = afterItemIn? outer rest :=
        afterItemIn?_furtherItems (fun w hw => h w (List.mem_cons_of_mem v hw)) outer rest

theorem takenOff_object {ms : List (String × Json)} (h : ∀ m ∈ ms, TakenOff m.2) :
    TakenOff (.object ms) := by
  intro outer rest _
  cases ms with
  | nil =>
    rw [afterValueIn?.eq_def]
    rfl
  | cons m ms =>
    have hkey := afterKey?_memberText m (furtherMembers ms ++ '\x7d' :: rest)
    calc afterValueIn? outer ((compact (.object (m :: ms))).toList ++ rest)
      _ = afterValueIn? outer
          ('\x7b' :: (memberText m ++ (furtherMembers ms ++ '\x7d' :: rest))) := by
        rw [toList_compact_object]
        simp
      _ = afterValueIn? (.object :: outer)
          (m.2.compact.toList ++ (furtherMembers ms ++ '\x7d' :: rest)) := by
        rw [memberText, toList_quoted] at hkey ⊢
        exact afterValueIn?_brace outer hkey
      _ = afterItemIn? (.object :: outer) (furtherMembers ms ++ '\x7d' :: rest) :=
        h m List.mem_cons_self _ _ (closes_furtherMembers ms rest)
      _ = afterItemIn? outer rest :=
        afterItemIn?_furtherMembers (fun n hn => h n (List.mem_cons_of_mem m hn)) outer rest

/-- The text of a value is taken off as one value. -/
theorem WellFormed.takenOff {v : Json} (h : v.WellFormed) : TakenOff v := by
  induction h with
  | null =>
    intro outer rest _
    rw [afterValueIn?.eq_def]
    rfl
  | bool b =>
    intro outer rest _
    rw [afterValueIn?.eq_def]
    cases b <;> rfl
  | number h =>
    intro outer rest hrest
    have happend := afterNumber?_append h hrest
    obtain ⟨c, tail, hcs, hc⟩ := exists_cons_of_afterNumber? h
    rw [compact, hcs, List.cons_append]
    rw [hcs, List.cons_append] at happend
    exact afterValueIn?_number outer hc happend
  | string s =>
    intro outer rest _
    rw [compact, toList_quoted, List.cons_append, List.append_assoc, List.singleton_append,
      afterValueIn?_quote, afterText?_quoted, Option.bind_some]
  | array hitems ih => exact takenOff_array hitems ih
  | object _ ih => exact takenOff_object ih

/-! ### The members of an object -/

/-- A value that is taken off has the text that it was written with. -/
theorem valueText_compact {v : Json} (h : v.WellFormed) (rest : List Char) :
    valueText (v.compact.toList ++ rest) rest = v.compact.toList := by
  obtain ⟨c, tail, hv, hblank, -⟩ := h.exists_cons
  have hb : dropBlanks (v.compact.toList ++ rest) = v.compact.toList ++ rest := by
    rw [hv, List.cons_append, dropBlanks_cons hblank]
  rw [valueText, hb, List.length_append, Nat.add_sub_cancel, List.take_left]

theorem textOf?_memberText (m : String × Json) (rest : List Char) :
    textOf? (dropBlanks (memberText m ++ rest)) = some m.1 := by
  have hb : dropBlanks (memberText m ++ rest) = memberText m ++ rest := by
    rw [memberText, toList_quoted]
    exact dropBlanks_cons (by decide) _
  rw [hb, memberText, List.append_assoc, textOf?_quoted]

theorem membersFrom?_comma {key : String} {v : List Char} (seen : List (String × List Char))
    (htext : textOf? (dropBlanks cs) = some key) (hkey : afterKey? cs = some v)
    (hvalue : afterValue? v = some (',' :: r)) :
    membersFrom? seen cs = membersFrom? ((key, valueText v (',' :: r)) :: seen) r := by
  have hb := dropBlanks_cons (c := ',') (by decide) r
  rw [membersFrom?.eq_def]
  grind

theorem membersFrom?_brace {key : String} {v : List Char} (seen : List (String × List Char))
    (htext : textOf? (dropBlanks cs) = some key) (hkey : afterKey? cs = some v)
    (hvalue : afterValue? v = some ('\x7d' :: r)) :
    membersFrom? seen cs = some (((key, valueText v ('\x7d' :: r)) :: seen).reverse, r) := by
  have hb := dropBlanks_cons (c := '\x7d') (by decide) r
  rw [membersFrom?.eq_def]
  grind

/-- The members of an object are read one after the other. -/
theorem membersFrom?_memberText {m : String × Json} {ms : List (String × Json)}
    (h : ∀ n ∈ m :: ms, n.2.WellFormed) (seen : List (String × List Char)) :
    membersFrom? seen (memberText m ++ (furtherMembers ms ++ ['\x7d'])) =
      some (seen.reverse ++ (m :: ms).map fun n => (n.1, n.2.compact.toList), []) := by
  induction ms generalizing m seen with
  | nil =>
    have hm : m.2.WellFormed := h m List.mem_cons_self
    have hvalue : afterValue? (m.2.compact.toList ++ ['\x7d']) = some ['\x7d'] := by
      rw [afterValue?, hm.takenOff _ _ (.brace _), afterItemIn?]
    rw [furtherMembers, List.flatMap_nil, List.nil_append,
      membersFrom?_brace seen (textOf?_memberText m _) (afterKey?_memberText m _) hvalue,
      valueText_compact hm, List.reverse_cons]
    rfl
  | cons n ms ih =>
    have hm : m.2.WellFormed := h m List.mem_cons_self
    have hrest : furtherMembers (n :: ms) ++ ['\x7d'] =
        ',' :: (memberText n ++ (furtherMembers ms ++ ['\x7d'])) := by simp [furtherMembers]
    have hvalue (r : List Char) : afterValue? (m.2.compact.toList ++ ',' :: r) = some (',' :: r) := by
      rw [afterValue?, hm.takenOff _ _ (.comma _), afterItemIn?]
    rw [hrest, membersFrom?_comma seen (textOf?_memberText m _) (afterKey?_memberText m _) (hvalue _),
      valueText_compact hm, ih fun o ho => h o (List.mem_cons_of_mem m ho), List.reverse_cons,
      List.append_assoc]
    rfl

/-- **A written object is cut into its members**: each key comes with the text of its value. -/
theorem members?_compact {ms : List (String × Json)} (h : ∀ m ∈ ms, m.2.WellFormed) :
    members? (compact (.object ms)).toList = some (ms.map fun m => (m.1, m.2.compact.toList)) := by
  cases ms with
  | nil => decide +kernel
  | cons m ms =>
    have hread := membersFrom?_memberText h []
    rw [toList_compact_object, members?, dropBlanks_cons (by decide)]
    rw [memberText, toList_quoted] at hread ⊢
    simp only [List.cons_append, dropBlanks_cons (c := '"') (by decide)] at hread ⊢
    rw [hread]
    rfl

end Drac.Json
