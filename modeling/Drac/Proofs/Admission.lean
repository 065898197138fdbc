import Drac.Proofs.Reading
import Drac.Proofs.TextMeasures

/-!
# Which files are read

Four conditions are set on a file that was found: on its size, on its extension, on the encoding of its text
and on the number of its lines.  They are independent of one another, and a file may fail several of them.
They are looked at in this order, so the error is about the first one that fails, with what was measured.
Whatever comes of it, there is one event about it, and all others are details.

## Main definitions

* `SourceFile.Fault` — a condition that a file fails, as the error about it.
* `SourceFile.stage` — which of the conditions an error is about.
* `SourceFile.FirstFault` — the first condition that a file fails.

## Main results

* `SourceFile.admitted_cases` — a file is either refused for its first fault or has none.
* `SourceFile.forall_not_fault_iff` — what the conditions are for a file without a fault.
* `SourceFile.read_reports_firstFault` — **a file is read just if it meets all four conditions**, and otherwise
  the error is about the first one that it fails.
-/

namespace Drac

open Log (Event)

namespace SourceFile

/-! ### Faults -/

/-- A file fails one of the conditions, and this is the error about it. -/
inductive Fault (limits : Limits) (requireExtension : Bool) (resolved : String) (bytes : ByteArray) :
    FileError → Prop
  /-- It has too many bytes. -/
  | size (h : limits.maxFileSize < bytes.size) :
    Fault limits requireExtension resolved bytes (.tooLarge bytes.size limits.maxFileSize)
  /-- The extension is asked for, and it has another one. -/
  | extension {e : Option String} (hrequire : requireExtension = true)
    (he : e = (File.extension? (File.fileName resolved)).map Text.lowercase) (h : e ≠ some "drac") :
    Fault limits requireExtension resolved bytes (.invalidExtension e)
  /-- It encodes no text; so many bytes of it do that no further prefix does. -/
  | encoding {n : ℕ} (h : ¬ bytes.IsValidUTF8)
    (hn : IsGreatest {n | n ≤ bytes.size ∧ (bytes.extract 0 n).IsValidUTF8} n) :
    Fault limits requireExtension resolved bytes (.invalidEncoding resolved n)
  /-- The text that it encodes has too many lines. -/
  | lines {text : String} (htext : text.toUTF8 = bytes)
    (h : limits.maxLineCount < Text.linesOf text) :
    Fault limits requireExtension resolved bytes
      (.tooManyLines (Text.linesOf text) limits.maxLineCount)

/-- Which of the conditions an error is about, in the order in which they are looked at. -/
def stage : FileError → ℕ
  | .tooLarge .. => 0
  | .invalidExtension _ => 1
  | .invalidEncoding .. => 2
  | .tooManyLines .. => 3
  | _ => 4

/-- The first condition that a file fails. -/
structure FirstFault (limits : Limits) (requireExtension : Bool) (resolved : String)
    (bytes : ByteArray) (e : FileError) : Prop where
  fault : Fault limits requireExtension resolved bytes e
  first : ∀ e', Fault limits requireExtension resolved bytes e' → stage e ≤ stage e'

section

variable {limits : Limits} {requireExtension : Bool} {resolved : String} {bytes : ByteArray}

/-- A file is read if it is not too large, has the extension if that is asked for, and encodes a text that
has not too many lines. -/
theorem forall_not_fault_iff :
    (∀ e, ¬ Fault limits requireExtension resolved bytes e) ↔
      bytes.size ≤ limits.maxFileSize ∧
      (requireExtension = true →
        (File.extension? (File.fileName resolved)).map Text.lowercase = some "drac") ∧
      ∃ text : String, text.toUTF8 = bytes ∧ Text.linesOf text ≤ limits.maxLineCount := by
  constructor
  · intro h
    refine ⟨?_, ?_, ?_⟩
    · by_contra hsize
      exact h _ (.size (Nat.lt_of_not_le hsize))
    · intro hrequire
      by_contra hextension
      exact h _ (.extension hrequire rfl hextension)
    · have hvalid : bytes.IsValidUTF8 := by
        by_contra hvalid
        exact h _ (.encoding hvalid (Text.isGreatest_validUpTo bytes))
      refine ⟨.fromUTF8 bytes hvalid, rfl, ?_⟩
      by_contra hlines
      exact h _ (.lines rfl (Nat.lt_of_not_le hlines))
  · rintro ⟨hsize, hextension, text, htext, hlines⟩ e hfault
    cases hfault with
    | size h => exact absurd hsize (Nat.not_le_of_lt h)
    | extension hrequire he h => exact h (he.trans (hextension hrequire))
    | encoding h hn => exact h (htext ▸ text.isValidUTF8)
    | lines htext' h =>
      cases String.toByteArray_inj.mp (htext'.trans htext.symm)
      exact absurd hlines (Nat.not_le_of_lt h)

/-- What is found at one stage is settled: two errors about the same condition are the same. -/
theorem Fault.unique {e e' : FileError} (h : Fault limits requireExtension resolved bytes e)
    (h' : Fault limits requireExtension resolved bytes e') (hstage : stage e = stage e') : e = e' := by
  cases h with
  | size _ =>
    cases h' <;> first | rfl | cases hstage
  | extension _ he _ =>
    cases h' with
    | extension _ he' _ => rw [he, he']
    | _ => cases hstage
  | encoding _ hn =>
    cases h' with
    | encoding _ hn' => rw [hn.unique hn']
    | _ => cases hstage
  | lines htext _ =>
    cases h' with
    | lines htext' _ => rw [String.toByteArray_inj.mp (htext.trans htext'.symm)]
    | _ => cases hstage

theorem FirstFault.unique {e e' : FileError} (h : FirstFault limits requireExtension resolved bytes e)
    (h' : FirstFault limits requireExtension resolved bytes e') : e = e' :=
  h.fault.unique h'.fault (le_antisymm (h.first e' h'.fault) (h'.first e h.fault))

/-- The extension of a file is missed if it is asked for and is another one. -/
theorem misses_iff (requireExtension : Bool) (m : FileMetadata) :
    (requireExtension && !m.isSource) = true ↔
      requireExtension = true ∧ m.extension ≠ some "drac" := by
  unfold FileMetadata.isSource File.sourceExtension
  rw [Bool.and_eq_true, Bool.not_eq_true', beq_eq_false_iff_ne]

theorem not_isValidUTF8_of_fromUTF8?_eq_none (h : String.fromUTF8? bytes = none) :
    ¬ bytes.IsValidUTF8 := by
  intro hvalid
  rw [fromUTF8?_eq_some_iff.mpr (show (String.fromUTF8 bytes hvalid).toUTF8 = bytes from rfl)] at h
  cases h

theorem extension_describe (resolved : String) (size : ℕ) :
    (describe resolved size).extension =
      (File.extension? (File.fileName resolved)).map Text.lowercase := by
  simp only [describe]

/-- A file that has passed the first two conditions is refused for the first of the others that it fails, or
its text is read. -/
theorem decoded_cases (hsize : bytes.size ≤ limits.maxFileSize)
    (hextension : requireExtension = true →
      (File.extension? (File.fileName resolved)).map Text.lowercase = some "drac") :
    let result := decoded limits (describe resolved bytes.size) bytes
    (∃ e, result = .error e ∧ FirstFault limits requireExtension resolved bytes e) ∨
      ∃ f, result = .ok f ∧ f.text.toUTF8 = bytes ∧
        ∀ e, ¬ Fault limits requireExtension resolved bytes e := by
  intro result
  have hdecoded : result = decoded limits (describe resolved bytes.size) bytes := rfl
  unfold decoded at hdecoded
  cases hutf8 : String.fromUTF8? bytes with
  | none =>
    have hvalid : ¬ bytes.IsValidUTF8 := not_isValidUTF8_of_fromUTF8?_eq_none hutf8
    rw [hutf8] at hdecoded
    refine .inl ⟨_, hdecoded, .encoding hvalid (Text.isGreatest_validUpTo bytes), ?_⟩
    intro e' h'
    cases h' with
    | size h => exact absurd hsize (Nat.not_le_of_lt h)
    | extension hrequire he h => exact absurd (he.trans (hextension hrequire)) h
    | encoding => exact Nat.le_refl 2
    | lines => exact Nat.le_succ 2
  | some text =>
    have htext : text.toUTF8 = bytes := fromUTF8?_eq_some_iff.mp hutf8
    rw [hutf8] at hdecoded
    dsimp only at hdecoded
    rw [Text.lineCount_eq_linesOf] at hdecoded
    by_cases hlines : limits.maxLineCount < Text.linesOf text
    · refine .inl ⟨_, hdecoded.trans (if_pos hlines), .lines htext hlines, ?_⟩
      intro e' h'
      cases h' with
      | size h => exact absurd hsize (Nat.not_le_of_lt h)
      | extension hrequire he h => exact absurd (he.trans (hextension hrequire)) h
      | encoding h => exact absurd (htext ▸ text.isValidUTF8) h
      | lines => exact Nat.le_refl 3
    · refine .inr ⟨_, hdecoded.trans (if_neg hlines), htext, forall_not_fault_iff.mpr ?_⟩
      exact ⟨hsize, hextension, text, htext, Nat.le_of_not_lt hlines⟩

/-- A file is either refused for the first fault that it has, or it has none and its text is read. -/
theorem admitted_cases (limits : Limits) (requireExtension : Bool) (resolved : String)
    (bytes : ByteArray) :
    let result := admitted limits requireExtension (describe resolved bytes.size) (.ok bytes)
    (∃ e, result = .error e ∧ FirstFault limits requireExtension resolved bytes e) ∨
      ∃ f, result = .ok f ∧ f.text.toUTF8 = bytes ∧
        ∀ e, ¬ Fault limits requireExtension resolved bytes e := by
  intro result
  by_cases hsize : limits.maxFileSize < bytes.size
  · exact .inl ⟨_, if_pos hsize, .size hsize, fun _ _ => Nat.zero_le _⟩
  by_cases hmisses : (requireExtension && !(describe resolved bytes.size).isSource) = true
  · obtain ⟨hrequire, hother⟩ := (misses_iff ..).mp hmisses
    have hfault : Fault limits requireExtension resolved bytes
        (.invalidExtension (describe resolved bytes.size).extension) :=
      .extension hrequire (extension_describe resolved bytes.size) hother
    refine .inl ⟨_, (if_neg hsize).trans (if_pos hmisses), hfault, ?_⟩
    intro e' h'
    cases h' with
    | size h => exact absurd h hsize
    | extension => exact Nat.le_refl 1
    | encoding | lines => exact Nat.le_add_left 1 _
  · have hresult : result = decoded limits (describe resolved bytes.size) bytes :=
      (if_neg hsize).trans (if_neg hmisses)
    rw [hresult]
    refine decoded_cases (Nat.le_of_not_lt hsize) fun hrequire => ?_
    by_contra hother
    rw [← extension_describe resolved bytes.size] at hother
    exact hmisses ((misses_iff ..).mpr ⟨hrequire, hother⟩)

end

/-! ### Reading -/

section

variable (limits : Limits) (settings : FileSettings)

/-- **A file is read just if it meets all four conditions.**  Of a file that is found at a path, reading gives
the text that its bytes encode, if it has no fault, and otherwise the error about the first fault that it
has, with what was measured.  There is exactly one event about it, whatever the journal is: of success, or of
failure with the code of the error.  All other events are details. -/
theorem read_reports_firstFault {disk : String → Probe} {path resolved : String} {bytes : ByteArray}
    (hpath : path ≠ "") (hfile : disk path = .file resolved bytes) :
    ∃ (result : Except FileError SourceFile) (es : List Event),
      (∀ j, read limits settings disk path j = (result, j.extended (j.entries es))) ∧
      ((∃ f, result = .ok f) ↔
        bytes.size ≤ limits.maxFileSize ∧
        (settings.requireExtension = true →
          (File.extension? (File.fileName resolved)).map Text.lowercase = some "drac") ∧
        ∃ text : String, text.toUTF8 = bytes ∧ Text.linesOf text ≤ limits.maxLineCount) ∧
      (∀ e, result = .error e ↔ FirstFault limits settings.requireExtension resolved bytes e) ∧
      match result with
      | .ok f => f.text.toUTF8 = bytes ∧ reported es = [(.info, .fileRead, none)]
      | .error e => reported es = [(.error, e.code, none)] := by
  obtain ⟨es, hread, hreported⟩ := reports_read limits settings disk path
  have houtcome : outcome limits settings.requireExtension path (disk path) =
      admitted limits settings.requireExtension (describe resolved bytes.size) (.ok bytes) := by
    rw [hfile, outcome, if_neg (by simpa using hpath)]
  rw [houtcome] at hread hreported
  refine ⟨_, es, hread, ?_⟩
  rw [← forall_not_fault_iff]
  rcases admitted_cases limits settings.requireExtension resolved bytes with
    ⟨e, he, hfirst⟩ | ⟨f, hf, htext, hnone⟩
  · rw [he] at hreported ⊢
    refine ⟨?_, ?_, hreported⟩
    · exact iff_of_false (by simp) fun hnone => hnone e hfirst.fault
    · intro e'
      constructor
      · rintro ⟨⟩
        exact hfirst
      · intro hfirst'
        rw [hfirst.unique hfirst']
  · rw [hf] at hreported ⊢
    refine ⟨?_, ?_, htext, hreported⟩
    · exact iff_of_true ⟨f, rfl⟩ hnone
    · intro e
      constructor
      · rintro ⟨⟩
      · intro hfirst
        exact absurd hfirst.fault (hnone e)

/-- A file that neither has the extension nor encodes a text is refused for its extension. -/
theorem read_txt_of_no_text :
    let limits := Profile.development.limits
    let settings : FileSettings := ⟨true, false⟩
    let bytes : ByteArray := ⟨#[255]⟩
    let disk (_ : String) : Probe := .file "/w/a.txt" bytes
    ¬ bytes.IsValidUTF8 ∧ ∃ es,
      (∀ j, read limits settings disk "a.txt" j =
        (.error (.invalidExtension (some "txt")), j.extended (j.entries es))) ∧
      reported es = [(.error, .invalidExtension, none)] := by
  intro limits settings bytes disk
  have hextension : some "txt" = (File.extension? (File.fileName "/w/a.txt")).map Text.lowercase := by
    decide +kernel
  have hfirst : FirstFault limits settings.requireExtension "/w/a.txt" bytes
      (.invalidExtension (some "txt")) := by
    refine ⟨.extension rfl hextension (by decide), ?_⟩
    intro e' h'
    cases h' with
    | size h => exact absurd h (by decide)
    | extension => exact Nat.le_refl 1
    | encoding | lines => exact Nat.le_add_left 1 _
  obtain ⟨result, es, hread, -, herror, hreported⟩ := read_reports_firstFault limits settings
    (show "a.txt" ≠ "" by decide) (show disk "a.txt" = .file "/w/a.txt" bytes from rfl)
  cases (herror _).mpr hfirst
  exact ⟨by decide +kernel, es, hread, hreported⟩

end

end SourceFile

end Drac
