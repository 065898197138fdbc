import Drac.Proofs.JsonTexts
import Drac.Token.Record

/-!
# Tokens that are written and read back

A token is written as a flat record.  The reader is freer than the writer: it takes the members in any order,
passes over members that it does not ask for, and does without the text of a token.  Whatever it makes of a
text, it makes the same of that token when it has been written.

## Main definitions

* `Token.RecordedBy` — members that give a token, in any order and among others.

## Main results

* `Json.fields?_compact` — the fields of a written object.
* `Token.ofJson?_of_recordedBy` — members that give a token are read as that token.
* `Token.ofJson?_compact_toJson` — **a token that is written and read back is the same.**
-/

namespace Drac

/-! ### The fields of a written object -/

namespace Json

variable {ms : List (String × Json)} {name : String}

/-- A member as the reader sees it. -/
def entry (m : String × Json) : String × List Char := (m.1, m.2.compact.toList)

theorem filter_map_entry (name : String) (ms : List (String × Json)) :
    (ms.map entry).filter (fun m => m.1 == name) = (ms.filter fun m => m.1 == name).map entry :=
  List.filter_map

/-- A member that stands alone gives its field. -/
theorem field?_of_filter_eq {v : Json} (h : ms.filter (fun m => m.1 == name) = [(name, v)]) :
    field? name (ms.map entry) = some (some v.compact.toList) := by
  rw [field?, filter_map_entry, h]
  rfl

/-- A field without a member is missing. -/
theorem field?_of_filter_eq_nil (h : ms.filter (fun m => m.1 == name) = []) :
    field? name (ms.map entry) = some none := by
  rw [field?, filter_map_entry, h]
  rfl

theorem fields?_compact (names : List String) (h : ∀ m ∈ ms, m.2.WellFormed) :
    fields? names (compact (.object ms)).toList =
      names.mapM fun name => field? name (ms.map entry) := by
  rw [fields?, members?_compact h]
  rfl

/-- A written text is read as that text. -/
theorem textOf?_compact (s : String) : textOf? (Json.string s).compact.toList = some s := by
  rw [compact, ← List.append_nil (quoted s).toList, textOf?_quoted]

/-- A text or its absence is read as what it is. -/
theorem optionalTextOf?_compact (s : Option String) :
    optionalTextOf? (ofText? s).compact.toList = some s := by
  cases s with
  | none => rfl
  | some s =>
    have hnull : isNull (Json.string s).compact.toList = false := by
      rw [compact, toList_quoted]
      rfl
    rw [ofText?, optionalTextOf?, hnull, textOf?_compact]
    rfl

/-- A natural number of at most 64 bits is read as that number. -/
theorem natOf?_compact {n : ℕ} (h : n ≤ maxNat) : natOf? (ofNat n).compact.toList = some n :=
  natOf?_toString h

theorem natOf?_le {cs : List Char} {n : ℕ} (h : natOf? cs = some n) : n ≤ maxNat := by
  unfold natOf? at h
  split at h
  · dsimp only at h
    split at h
    next hle =>
      cases h
      exact hle
    · cases h
  · cases h

theorem wellFormed_ofNat (n : ℕ) : (ofNat n).WellFormed := .number (afterNumber?_toString n)

theorem wellFormed_ofText? (s : Option String) : (ofText? s).WellFormed := by
  cases s with
  | none => exact .null
  | some s => exact .string s

end Json

/-! ### Tokens -/

namespace Token

open Json (maxNat)

/-- Members that give a token: one each for the category and the two numbers of the position, and one for the
text, which may be missing where the token has none.  They may stand in any order and among others. -/
structure RecordedBy (t : Token) (ms : List (String × Json)) : Prop where
  wellFormed : ∀ m ∈ ms, m.2.WellFormed
  lexeme : ms.filter (fun m => m.1 == "lexeme") = [("lexeme", .ofText? t.lexeme)] ∨
    ms.filter (fun m => m.1 == "lexeme") = [] ∧ t.lexeme = none
  category : ms.filter (fun m => m.1 == "category") = [("category", .string t.category.name)]
  line : ms.filter (fun m => m.1 == "line") = [("line", .ofNat t.position.line)]
  column : ms.filter (fun m => m.1 == "column") = [("column", .ofNat t.position.column)]
  line_le : t.position.line ≤ maxNat
  column_le : t.position.column ≤ maxNat

/-- The name of a category is read as that category. -/
theorem categoryOf?_compact (c : Category) :
    categoryOf? (Json.string c.name).compact.toList = some c := by
  rw [categoryOf?, Json.variantOf?, Json.textOf?_compact]
  exact Category.ofName?_name c

/-- Members that give a token are read as that token. -/
theorem ofJson?_of_recordedBy {t : Token} {ms : List (String × Json)} (h : t.RecordedBy ms) :
    ofJson? (Json.object ms).compact = some t := by
  have hcategory := Json.field?_of_filter_eq h.category
  have hline := Json.field?_of_filter_eq h.line
  have hcolumn := Json.field?_of_filter_eq h.column
  have hread (lexeme : Option (List Char))
      (hlexeme : Json.field? "lexeme" (ms.map Json.entry) = some lexeme)
      (htext : (lexeme.map Json.optionalTextOf?).getD (some none) = some t.lexeme) :
      ofJson? (Json.object ms).compact = some t := by
    have hfields := Json.fields?_compact ["lexeme", "category", "line", "column"] h.wellFormed
    simp only [List.mapM_cons, List.mapM_nil, hlexeme, hcategory, hline, hcolumn] at hfields
    rw [ofJson?, hfields]
    simp [htext, categoryOf?_compact, Json.natOf?_compact h.line_le, Json.natOf?_compact h.column_le]
  rcases h.lexeme with hone | ⟨hnone, htext⟩
  · exact hread _ (Json.field?_of_filter_eq hone) (Json.optionalTextOf?_compact t.lexeme)
  · exact hread _ (Json.field?_of_filter_eq_nil hnone) (by rw [htext]; rfl)

/-- A token is given by the members that it is written with. -/
theorem recordedBy_toJson {t : Token} (hline : t.position.line ≤ maxNat)
    (hcolumn : t.position.column ≤ maxNat) :
    t.RecordedBy
      [("lexeme", .ofText? t.lexeme), ("category", .string t.category.name),
        ("line", .ofNat t.position.line), ("column", .ofNat t.position.column)] where
  wellFormed := by
    simp [Json.wellFormed_ofText?, Json.wellFormed_ofNat, Json.WellFormed.string]
  lexeme := .inl rfl
  category := rfl
  line := rfl
  column := rfl
  line_le := hline
  column_le := hcolumn

/-- The numbers of a position that is read have at most 64 bits. -/
theorem position_le_of_ofJson? {text : String} {t : Token} (h : ofJson? text = some t) :
    t.position.line ≤ maxNat ∧ t.position.column ≤ maxNat := by
  unfold ofJson? at h
  simp only [Option.bind_eq_bind, Option.bind_eq_some_iff] at h
  obtain ⟨fields, -, h⟩ := h
  split at h
  · simp only [Option.bind_eq_some_iff, Option.pure_def, Option.some.injEq] at h
    obtain ⟨lexeme, -, category, -, line, hline, column, hcolumn, rfl⟩ := h
    exact ⟨Json.natOf?_le hline, Json.natOf?_le hcolumn⟩
  · cases h

/-- **A token that is written and read back is the same**, whatever its text is, if the numbers of its
position have at most 64 bits.  So a token that was read from any text is read again from the text that it is
written with.  The reader takes the members of a token in any order and among others, and does without a text
that the token does not have. -/
theorem ofJson?_compact_toJson :
    (∀ t : Token, t.position.line ≤ maxNat → t.position.column ≤ maxNat →
      ofJson? t.toJson.compact = some t) ∧
    (∀ (text : String) (t : Token), ofJson? text = some t → ofJson? t.toJson.compact = some t) ∧
    ∀ (t : Token) (ms : List (String × Json)), t.RecordedBy ms →
      ofJson? (Json.object ms).compact = some t := by
  have hwritten {t : Token} (hline : t.position.line ≤ maxNat) (hcolumn : t.position.column ≤ maxNat) :
      ofJson? t.toJson.compact = some t :=
    ofJson?_of_recordedBy (recordedBy_toJson hline hcolumn)
  refine ⟨fun t => hwritten, ?_, fun t ms => ofJson?_of_recordedBy⟩
  intro text t hread
  obtain ⟨hline, hcolumn⟩ := position_le_of_ofJson? hread
  exact hwritten hline hcolumn

/-- A text with every kind of escape on the last line that there can be; a record with blanks, with the
category as an object and without a text; and members in another order with one that no token has. -/
theorem ofJson?_compact_toJson_of_reordered :
    let t : Token := ⟨some "\"\\\n\x01é", .stringLiteral, ⟨maxNat, 1⟩⟩
    let text := "\x7b \"column\":7, \"lexeme\":null, \"category\":\x7b\"EOF\":null\x7d, \"line\" : 3 \x7d"
    let ms : List (String × Json) :=
      [("column", .ofNat 7), ("x", .array [.number "-1.5e3", .object []]), ("line", .ofNat 3),
        ("category", .string "EOF")]
    ofJson? t.toJson.compact = some t ∧
      (ofJson? text = some (.eof ⟨3, 7⟩) ∧
        ofJson? (toJson (.eof ⟨3, 7⟩)).compact = some (.eof ⟨3, 7⟩)) ∧
      (RecordedBy (.eof ⟨3, 7⟩) ms ∧ ofJson? (Json.object ms).compact = some (.eof ⟨3, 7⟩)) := by
  intro t text ms
  have hread : ofJson? text = some (.eof ⟨3, 7⟩) := by decide +kernel
  have hwellFormed : ∀ m ∈ ms, m.2.WellFormed := by
    have hnumber : (Json.number "-1.5e3").WellFormed := .number (by decide +kernel)
    simp [ms, Json.wellFormed_ofNat, Json.WellFormed.string, Json.WellFormed.array, hnumber,
      Json.WellFormed.object]
  have hms : RecordedBy (.eof ⟨3, 7⟩) ms :=
    ⟨hwellFormed, .inr ⟨rfl, rfl⟩, rfl, rfl, rfl, by decide, by decide⟩
  obtain ⟨hbounded, htext, hmembers⟩ := ofJson?_compact_toJson
  exact ⟨hbounded t (by decide) (by decide), ⟨hread, htext _ _ hread⟩, hms, hmembers _ _ hms⟩

end Token

end Drac
