import Drac.Limits
import Drac.Proofs.Numerals
import Mathlib.Data.List.Forall2
import Mathlib.Tactic.SplitIfs

/-!
# Limits that are declared

The limits of a profile are checked, and then declared as constants in a text from which the program is built.
When the program starts, its log checks its own two limits once more, in a check that is written separately.
Here the text is read back.  The reader knows comments, modules and constants; it does not know how the text was
written, and whatever it does not know it refuses.

## Main definitions

* `Constant` — a constant with the modules around it, its name, its type and its value.
* `Constant.Piece`, `Constant.piecesFrom` — the words, numbers and signs of a text outside of its comments.
* `Constant.readFrom`, `Constant.all?` — the constants that a text declares.
* `Constant.Spells`, `Constant.Declares` — a part of a text consists of pieces, or declares constants, whatever
  follows it.
* `Limits.constants`, `Limits.ofConstants?` — the limits as constants, and the way back.

## Main results

* `Limits.declares_declarations` — the text declares each limit once and nothing else.
* `Limits.check_eq_ok_iff` — what the check of a profile asks for; the check of the log is a part of it.
* `Limits.declarations_of_check` — **limits that pass their check are declared as they are, and the log accepts
  them.**
-/

namespace Drac

/-- A constant that a text declares. -/
structure Constant where
  /-- The modules around it, the outermost first. -/
  modules : List String
  /-- The name. -/
  name : String
  /-- The name of its type. -/
  type : String
  /-- The value. -/
  value : ℕ
  deriving DecidableEq, Repr

namespace Constant

/-! ### Words, numbers and signs -/

/-- A part of a text of declarations. -/
inductive Piece
  /-- A word of letters, digits and underscores. -/
  | word (text : String)
  /-- A number in decimal digits. -/
  | number (n : ℕ)
  /-- A character that stands for itself. -/
  | sign (c : Char)
  deriving DecidableEq, Repr

/-- The characters of words and numbers. -/
def isWordChar (c : Char) : Bool := c.isAlphanum || c == '_'

/-- The piece that some characters of this kind make; no character makes none. -/
def pieceOf (w : List Char) : List Piece :=
  if w = [] then []
  else if w.all Char.isDigit then [.number (Nat.ofDigitChars 10 w 0)]
  else [.word (String.ofList w)]

/-- Where the reader of a text stands. -/
inductive Place
  /-- In a comment. -/
  | comment
  /-- Behind the first characters of a word or a number, or of none. -/
  | word (begun : List Char)

/-- The pieces of a text.  A comment begins with two slashes and ends with its line; blanks and line breaks only
keep words apart. -/
def piecesFrom : Place → List Char → List Piece
  | .comment, [] => []
  | .comment, c :: cs => piecesFrom (if c = '\n' then .word [] else .comment) cs
  | .word w, [] => pieceOf w
  | .word w, c :: cs =>
    if isWordChar c then piecesFrom (.word (w ++ [c])) cs
    -- the second slash is passed over with the comment
    else if c = '/' ∧ cs.head? = some '/' then pieceOf w ++ piecesFrom .comment cs
    else if c.isWhitespace then pieceOf w ++ piecesFrom (.word []) cs
    else pieceOf w ++ .sign c :: piecesFrom (.word []) cs

/-- Characters of words add to the word that has been begun. -/
theorem piecesFrom_append {cs : List Char} (h : ∀ c ∈ cs, isWordChar c = true) (w rest : List Char) :
    piecesFrom (.word w) (cs ++ rest) = piecesFrom (.word (w ++ cs)) rest := by
  induction cs generalizing w with
  | nil => rw [List.nil_append, List.append_nil]
  | cons c cs ih =>
    obtain ⟨hc, hcs⟩ := List.forall_mem_cons.mp h
    rw [List.cons_append, piecesFrom, if_pos hc, ih hcs, List.append_assoc, List.singleton_append]

/-- Any other character ends a word. -/
theorem piecesFrom_cons {c : Char} (hc : isWordChar c = false) (w cs : List Char) :
    piecesFrom (.word w) (c :: cs) = pieceOf w ++ piecesFrom (.word []) (c :: cs) := by
  have hnil : pieceOf [] = [] := rfl
  simp only [piecesFrom, hc, Bool.false_eq_true, if_false, hnil, List.nil_append]
  split_ifs <;> rfl

/-- The rest of a line that has a comment is passed over. -/
theorem piecesFrom_comment {cs : List Char} (h : '\n' ∉ cs) (rest : List Char) :
    piecesFrom .comment (cs ++ '\n' :: rest) = piecesFrom (.word []) rest := by
  induction cs with
  | nil => rfl
  | cons c cs ih =>
    rw [List.mem_cons, not_or] at h
    rw [List.cons_append, piecesFrom, if_neg (Ne.symm h.1), ih h.2]

/-- A name is a word that is no number. -/
def IsName (s : String) : Prop :=
  s.toList.all isWordChar = true ∧ s.toList.all Char.isDigit = false

instance (s : String) : Decidable (IsName s) :=
  inferInstanceAs (Decidable (_ ∧ _))

theorem pieceOf_name {s : String} (h : IsName s) : pieceOf s.toList = [.word s] := by
  have hne : s.toList ≠ [] := by
    intro hnil
    have hdigits := h.2
    rw [hnil] at hdigits
    cases hdigits
  rw [pieceOf, if_neg hne, h.2, if_neg Bool.false_ne_true, String.ofList_toList]

theorem pieceOf_toString (n : ℕ) : pieceOf (toString n).toList = [.number n] := by
  have hne : (toString n).toList ≠ [] := by
    rw [Nat.toString_eq_repr, Nat.toList_repr]
    exact Nat.toDigits_ne_nil
  have hdigits : (toString n).toList.all Char.isDigit = true :=
    List.all_eq_true.mpr fun _ => Text.isDigit_of_mem_toString
  rw [pieceOf, if_neg hne, if_pos hdigits, Text.ofDigitChars_toString]

theorem isWordChar_of_mem_toString {c : Char} {n : ℕ} (h : c ∈ (toString n).toList) :
    isWordChar c = true := by
  rw [isWordChar, Char.isAlphanum, Text.isDigit_of_mem_toString h, Bool.or_true, Bool.true_or]

/-- A text at whose beginning a word ends. -/
def EndsWord (text : String) : Prop := ∃ c cs, text.toList = c :: cs ∧ isWordChar c = false

/-- A part of a text consists of pieces, whatever follows it. -/
def Spells (text : String) (ps : List Piece) : Prop :=
  ∀ rest, piecesFrom (.word []) (text.toList ++ rest) = ps ++ piecesFrom (.word []) rest

namespace Spells

variable {s w t : String} {ps qs : List Piece}

/-- Between two parts a word is a piece of its own. -/
theorem word (hs : Spells s ps) (hw : ∀ c ∈ w.toList, isWordChar c = true) (hend : EndsWord t)
    (ht : Spells t qs) : Spells (s ++ w ++ t) (ps ++ (pieceOf w.toList ++ qs)) := by
  obtain ⟨c, cs, htext, hc⟩ := hend
  intro rest
  have hrest := ht rest
  rw [htext, List.cons_append] at hrest
  rw [String.toList_append, String.toList_append, htext, List.append_assoc, List.append_assoc, hs,
    piecesFrom_append hw, List.nil_append, List.cons_append, piecesFrom_cons hc, hrest, List.append_assoc,
    List.append_assoc]

theorem name (hs : Spells s ps) (hw : IsName w) (hend : EndsWord t) (ht : Spells t qs) :
    Spells (s ++ w ++ t) (ps ++ .word w :: qs) := by
  have hspells := hs.word (List.all_eq_true.mp hw.1) hend ht
  rwa [pieceOf_name hw] at hspells

theorem number (hs : Spells s ps) (n : ℕ) (hend : EndsWord t) (ht : Spells t qs) :
    Spells (s ++ toString n ++ t) (ps ++ .number n :: qs) := by
  have hword : ∀ c ∈ (toString n).toList, isWordChar c = true := fun _ => isWordChar_of_mem_toString
  have hspells := hs.word hword hend ht
  rwa [pieceOf_toString] at hspells

/-- Between the beginning of a comment and the end of its line there is no piece. -/
theorem comment (hs : ∀ rest, piecesFrom (.word []) (s.toList ++ rest) = piecesFrom .comment rest)
    (hw : '\n' ∉ w.toList) (hend : ∃ cs, t.toList = '\n' :: cs) (ht : Spells t qs) :
    Spells (s ++ w ++ t) qs := by
  obtain ⟨cs, htext⟩ := hend
  intro rest
  have hrest : piecesFrom (.word []) (cs ++ rest) = qs ++ piecesFrom (.word []) rest := by
    rw [← ht, htext]
    rfl
  rw [String.toList_append, String.toList_append, List.append_assoc, List.append_assoc, hs, htext,
    List.cons_append, piecesFrom_comment hw, hrest]

end Spells

/-! ### Modules and constants -/

/-- The constants that are declared in a list of pieces, inside of modules of which the innermost comes first. -/
def readFrom : List String → List Piece → Option (List Constant)
  | [], [] => some []
  | outer, .word "pub" :: .word "mod" :: .word name :: .sign '\x7b' :: ps => readFrom (name :: outer) ps
  | outer, .word "pub" :: .word "const" :: .word name :: .sign ':' :: .word type :: .sign '=' ::
      .number value :: .sign ';' :: ps =>
    (readFrom outer ps).map (⟨outer.reverse, name, type, value⟩ :: ·)
  | _ :: outer, .sign '\x7d' :: ps => readFrom outer ps
  | _, _ => none

/-- The constants that are declared in a text, inside of modules of which the innermost comes first. -/
def declaredIn (outer : List String) (text : List Char) : Option (List Constant) :=
  readFrom outer (piecesFrom (.word []) text)

/-- The constants that a text declares, in their order. -/
def all? (text : String) : Option (List Constant) := declaredIn [] text.toList

/-- A part of a text declares constants, whatever follows it. -/
def Declares (outer : List String) (text : String) (constants : List Constant) : Prop :=
  ∀ rest, declaredIn outer (text.toList ++ rest) = (declaredIn outer rest).map (constants ++ ·)

namespace Declares

variable {outer : List String} {name type s t u : String} {cs ds : List Constant}

/-- What has no pieces declares nothing. -/
theorem of_spells_nil (h : Spells s []) : Declares outer s [] := by
  intro rest
  rw [declaredIn, h, List.nil_append, declaredIn]
  exact Option.map_id'.symm

theorem append (h : Declares outer s cs) (h' : Declares outer t ds) : Declares outer (s ++ t) (cs ++ ds) := by
  intro rest
  rw [String.toList_append, List.append_assoc, h, h', Option.map_map]
  exact congrArg (Option.map · _) (funext fun _ => (List.append_assoc ..).symm)

/-- A declaration declares its constant. -/
theorem declaration (hname : IsName name) (htype : IsName type) (value : ℕ) :
    Declares outer (Limits.declaration name type value) [⟨outer.reverse, name, type, value⟩] := by
  have hspells : Spells (Limits.declaration name type value)
      [.word "pub", .word "const", .word name, .sign ':', .word type, .sign '=', .number value, .sign ';'] := by
    have hpub : Spells "        pub const " [.word "pub", .word "const"] := fun _ => rfl
    have hcolon : Spells ": " [.sign ':'] := fun _ => rfl
    have hequal : Spells " = " [.sign '='] := fun _ => rfl
    have hend : Spells ";\n" [.sign ';'] := fun _ => rfl
    exact ((hpub.name hname ⟨_, _, rfl, rfl⟩ hcolon).name htype ⟨_, _, rfl, rfl⟩ hequal).number value
      ⟨_, _, rfl, rfl⟩ hend
  intro rest
  rw [declaredIn, hspells, declaredIn]
  simp only [List.cons_append, List.nil_append]
  rw [readFrom]

/-- A module declares what stands in it. -/
theorem inModule (hs : Spells s [.word "pub", .word "mod", .word name, .sign '\x7b'])
    (h : Declares (name :: outer) u cs) (ht : Spells t [.sign '\x7d']) : Declares outer (s ++ u ++ t) cs := by
  intro rest
  calc declaredIn outer ((s ++ u ++ t).toList ++ rest)
    _ = declaredIn (name :: outer) (u.toList ++ (t.toList ++ rest)) := by
      rw [declaredIn, String.toList_append, String.toList_append, List.append_assoc, List.append_assoc, hs]
      simp only [List.cons_append, List.nil_append]
      rw [readFrom, declaredIn]
    _ = (declaredIn (name :: outer) (t.toList ++ rest)).map (cs ++ ·) := h _
    _ = (declaredIn outer rest).map (cs ++ ·) := by
      rw [declaredIn, ht]
      rfl

/-- Declarations one after the other declare their constants. -/
theorem join {texts : List String} (h : List.Forall₂ (fun t c => Declares outer t [c]) texts cs) :
    Declares outer (String.join texts) cs := by
  have hbehind : ∀ {before : String} {seen : List Constant}, Declares outer before seen →
      Declares outer (texts.foldl (· ++ ·) before) (seen ++ cs) := by
    induction h with
    | nil =>
      intro before seen hbefore
      rwa [List.append_nil]
    | cons ht _ ih =>
      intro before seen hbefore
      have hall := ih (hbefore.append ht)
      rwa [List.append_assoc, List.singleton_append] at hall
  exact hbehind (of_spells_nil fun _ => rfl)

/-- A group of declarations declares its constants in a module. -/
theorem group (hname : IsName name) {texts : List String}
    (h : List.Forall₂ (fun t c => Declares (name :: outer) t [c]) texts cs) :
    Declares outer (Limits.declarationGroup name texts) cs := by
  have hpub : Spells "    pub mod " [.word "pub", .word "mod"] := fun _ => rfl
  have hbrace : Spells " \x7b\n" [.sign '\x7b'] := fun _ => rfl
  have hclose : Spells "    \x7d\n" [.sign '\x7d'] := fun _ => rfl
  exact inModule (hpub.name hname ⟨_, _, rfl, rfl⟩ hbrace) (join h) hclose

/-- The whole of a text declares what is read in it. -/
theorem all?_eq (h : Declares [] s cs) : all? s = some cs := by
  have hread := h []
  rw [List.append_nil] at hread
  rw [all?, hread]
  exact congrArg some (List.append_nil cs)

end Declares

/-- What looks like a declaration in a comment is none. -/
example : all? "// pub const A: u8 = 1;\npub mod m \x7bpub const B: u8 = 20;\x7d" =
    some [⟨["m"], "B", "u8", 20⟩] := by cbv

end Constant

namespace Limits

open Constant (Declares Spells)

/-! ### Limits as constants -/

/-- The limits as constants, each in the module of the part of the program that it is for. -/
def constants (l : Limits) : List Constant :=
  [⟨["compile_time", "file_processing"], "MAX_FILE_SIZE", "u64", l.maxFileSize⟩,
    ⟨["compile_time", "file_processing"], "LARGE_FILE_THRESHOLD", "u64", l.largeFileThreshold⟩,
    ⟨["compile_time", "file_processing"], "MAX_LINE_COUNT_FOR_ANALYSIS", "usize", l.maxLineCount⟩,
    ⟨["compile_time", "lexical"], "MAX_REPORTED_ILLEGAL_CHARS", "usize", l.maxReportedIllegalChars⟩,
    ⟨["compile_time", "syntax"], "MAX_PARSE_DEPTH", "usize", l.maxParseDepth⟩,
    ⟨["compile_time", "logging"], "LOG_BUFFER_SIZE", "usize", l.logBufferSize⟩,
    ⟨["compile_time", "logging"], "MAX_LOG_MESSAGE_LENGTH", "usize", l.maxLogMessageLength⟩]

/-- The value of a constant in a part of the program, if it is declared exactly once. -/
def valueOf? (constants : List Constant) (part name : String) : Option ℕ :=
  match constants.filter fun c => c.modules == ["compile_time", part] && c.name == name with
  | [c] => some c.value
  | _ => none

/-- The limits that constants give, if each limit is declared exactly once. -/
def ofConstants? (constants : List Constant) : Option Limits := do
  let file := valueOf? constants "file_processing"
  let log := valueOf? constants "logging"
  return {
    maxFileSize := ← file "MAX_FILE_SIZE"
    largeFileThreshold := ← file "LARGE_FILE_THRESHOLD"
    maxLineCount := ← file "MAX_LINE_COUNT_FOR_ANALYSIS"
    maxReportedIllegalChars := ← valueOf? constants "lexical" "MAX_REPORTED_ILLEGAL_CHARS"
    maxParseDepth := ← valueOf? constants "syntax" "MAX_PARSE_DEPTH"
    logBufferSize := ← log "LOG_BUFFER_SIZE"
    maxLogMessageLength := ← log "MAX_LOG_MESSAGE_LENGTH" }

/-- Limits are given by their constants. -/
theorem ofConstants?_constants (l : Limits) : ofConstants? l.constants = some l := rfl

/-- The text declares each limit once and nothing else, under any name that is one line. -/
theorem declares_declarations (l : Limits) {profile : String} (h : '\n' ∉ profile.toList) :
    Declares [] (l.declarations profile) l.constants := by
  have hbreak : Declares ["compile_time"] "\n" [] := .of_spells_nil fun _ => rfl
  have hclose : Spells "\x7d\n" [.sign '\x7d'] := fun _ => rfl
  have hheading : Spells
      ("\n// Generated compile-time constants from TOML configuration\n// Profile: " ++ profile ++
        "\n// DO NOT EDIT - Generated by build.rs\n\npub mod compile_time \x7b\n")
      [.word "pub", .word "mod", .word "compile_time", .sign '\x7b'] :=
    Spells.comment (fun _ => rfl) h ⟨_, rfl⟩ fun _ => rfl
  have hlong : Constant.IsName "u64" := by decide
  have hsize : Constant.IsName "usize" := by decide
  refine .inModule hheading ?_ hclose
  -- four groups, between which there are line breaks
  show Declares _ (_ ++ "\n" ++ _ ++ "\n" ++ _ ++ "\n" ++ _) ([_, _, _] ++ [] ++ [_] ++ [] ++ [_] ++ [] ++ [_, _])
  refine .append (.append (.append (.append (.append (.append ?files hbreak) ?lexical) hbreak) ?syntactic)
    hbreak) ?logging
  case files =>
    exact .group (by decide) (.cons (.declaration (by decide) hlong _)
      (.cons (.declaration (by decide) hlong _) (.cons (.declaration (by decide) hsize _) .nil)))
  case lexical => exact .group (by decide) (.cons (.declaration (by decide) hsize _) .nil)
  case syntactic => exact .group (by decide) (.cons (.declaration (by decide) hsize _) .nil)
  case logging =>
    exact .group (by decide) (.cons (.declaration (by decide) hsize _)
      (.cons (.declaration (by decide) hsize _) .nil))

/-! ### The two checks -/

/-- The check of the log asks for a memory of a certain size and for messages with a character. -/
theorem checkLog_eq_ok_iff {l : Limits} :
    l.checkLog = .ok () ↔ 100 ≤ l.logBufferSize ∧ l.logBufferSize ≤ 100000 ∧ l.maxLogMessageLength ≠ 0 := by
  unfold checkLog
  split_ifs with hlarge hsmall hempty
  · exact iff_of_false nofun (by omega)
  · exact iff_of_false nofun (by omega)
  · exact iff_of_false nofun (by omega)
  · exact iff_of_true rfl (by omega)

/-- The check of a profile asks for what the check of the log asks for, and for more. -/
theorem check_eq_ok_iff {l : Limits} {profile : String} :
    l.check profile = .ok () ↔
      l.maxFileSize ≤ 1000000000 ∧ l.largeFileThreshold ≤ l.maxFileSize ∧
        (1 ≤ l.maxParseDepth ∧ l.maxParseDepth ≤ 500) ∧ l.checkLog = .ok () ∧
        (profile = "production" → l.maxFileSize ≤ 50000000) := by
  rw [checkLog_eq_ok_iff]
  unfold check
  split_ifs with hsize hlarge hdepth hbuffer hmessage hproduction
  · exact iff_of_false nofun (by omega)
  · exact iff_of_false nofun (by omega)
  · exact iff_of_false nofun (by omega)
  · exact iff_of_false nofun (by omega)
  · exact iff_of_false nofun (by omega)
  · refine iff_of_false nofun fun hall => ?_
    exact Nat.not_le.mpr hproduction.2 (hall.2.2.2.2 hproduction.1)
  · have hstrict : profile = "production" → l.maxFileSize ≤ 50000000 :=
      fun hname => Nat.not_lt.mp fun hlt => hproduction ⟨hname, hlt⟩
    exact iff_of_true rfl ⟨by omega, by omega, by omega, by omega, hstrict⟩

/-- **Limits that pass their check are declared as they are, and the log accepts them.**  Whatever name the
profile has, as long as it is one line, the text of the declarations declares each of the seven limits exactly
once and nothing else, so the limits are read from it as they were.  Limits that the log refuses when it starts
are refused by the check of every profile. -/
theorem declarations_of_check :
    (∀ (l : Limits) (profile : String), '\n' ∉ profile.toList → l.check profile = .ok () →
      Constant.all? (l.declarations profile) = some l.constants ∧ (l.constants.map Constant.name).Nodup ∧
        (Constant.all? (l.declarations profile)).bind ofConstants? = some l ∧
        (1 ≤ l.maxParseDepth ∧ l.maxParseDepth ≤ 500) ∧ l.largeFileThreshold ≤ l.maxFileSize ∧
        l.checkLog = .ok ()) ∧
    ∀ (l : Limits) (e : LogLimitError), l.checkLog = .error e →
      ∀ profile, ∃ e', l.check profile = .error e' := by
  constructor
  · intro l profile hprofile hcheck
    have hall := (declares_declarations l hprofile).all?_eq
    have hnames : (l.constants.map Constant.name).Nodup := by simp [constants]
    obtain ⟨-, hlarge, hdepth, hlog, -⟩ := check_eq_ok_iff.mp hcheck
    refine ⟨hall, hnames, ?_, hdepth, hlarge, hlog⟩
    rw [hall]
    exact ofConstants?_constants l
  · intro l e hlog profile
    cases hcheck : l.check profile with
    | error e' => exact ⟨e', rfl⟩
    | ok =>
      obtain ⟨-, -, -, hok, -⟩ := check_eq_ok_iff.mp hcheck
      rw [hlog] at hok
      cases hok

/-- The greatest values that are allowed, under a name that looks like declarations; and a memory for one event
too few. -/
theorem declarations_of_check_of_boundary :
    let l : Limits := ⟨1000000000, 1000000000, 0, 7, 500, 100000, 1⟩
    let profile := "\x7d pub const MAX_FILE_SIZE: u64 = 7; /*"
    let m : Limits := ⟨1000, 1000, 1000, 10, 100, 99, 80⟩
    ('\n' ∉ profile.toList ∧ l.check profile = .ok () ∧
      Constant.all? (l.declarations profile) = some l.constants ∧
      (Constant.all? (l.declarations profile)).bind ofConstants? = some l ∧ l.checkLog = .ok ()) ∧
    m.checkLog = .error (.bufferTooSmall 99) ∧ ∃ e, m.check "development" = .error e := by
  intro l profile m
  obtain ⟨haccepted, hrefused⟩ := declarations_of_check
  have hprofile : '\n' ∉ profile.toList := by decide
  have hcheck : l.check profile = .ok () := by decide
  have hlog : m.checkLog = .error (.bufferTooSmall 99) := rfl
  obtain ⟨hall, -, hread, -, -, hok⟩ := haccepted l profile hprofile hcheck
  exact ⟨⟨hprofile, hcheck, hall, hread, hok⟩, hlog, hrefused m _ hlog "development"⟩

end Limits

end Drac
