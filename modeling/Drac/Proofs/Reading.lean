import Drac.Check
import Drac.Proofs.EventTrace

/-!
# Reading files

What reading a file gives depends on what there is at its path and on whether the extension is asked for.
Nothing else that the user chooses has an influence on it, and nothing that is logged.  A list of tokens
never asks for the extension, so it and a check are about the same text or fail alike, unless the check
refuses the file for its extension: then the list is given all the same.

## Main definitions

* `SourceFile.outcome` — what reading gives, nothing being logged.
* `SourceFile.Reports` — a computation logs one event about its result, and otherwise details.
* `LacksExtension` — a file could be read if its extension did not matter.
* `Agree` — a list of tokens and a check are about the same file.

## Main results

* `SourceFile.reports_read`, `read_eq_outcome` — reading gives this outcome and reports it, whatever there is
  at the path.
* `checkFile_eq`, `dumpTokens_eq` — what a check and a list of tokens make of it.
* `dumpTokens_agrees_iff` — **a list of tokens and a check agree unless the extension is asked for and the
  file lacks it.**
-/

namespace Drac

open Log (Code Event Journal Level Logged)

/-! ### What reading gives -/

theorem Log.Logged.bind_apply {α β : Type} (first : Logged α) (next : α → Logged β) (j : Journal) :
    (first >>= next) j = next (first j).1 (first j).2 := rfl

theorem Log.Logged.withFile_fst {α : Type} (f : Log.FileContext) (body : Logged α) (j : Journal) :
    (Logged.withFile f body j).1 = (body { j with file := some f }).1 := rfl

namespace SourceFile

/-- What reading the text of a file gives, nothing being logged. -/
def decoded (limits : Limits) (m : FileMetadata) (bytes : ByteArray) : Except FileError SourceFile :=
  match String.fromUTF8? bytes with
  | none => .error (.invalidEncoding m.path (Text.validUpTo bytes))
  | some text =>
    let lines := Text.lineCount text
    if limits.maxLineCount < lines then .error (.tooManyLines lines limits.maxLineCount)
    else .ok ⟨text, { m with lineCount := lines }⟩

/-- What reading the bytes of a file gives if they were given, nothing being logged. -/
def taken (limits : Limits) (m : FileMetadata) : Except IoFailure ByteArray → Except FileError SourceFile
  | .error failure => .error (.ofIo failure m.path "read file")
  | .ok bytes => decoded limits m bytes

/-- What reading a file that was found gives, nothing being logged. -/
def admitted (limits : Limits) (requireExtension : Bool) (m : FileMetadata)
    (contents : Except IoFailure ByteArray) : Except FileError SourceFile :=
  if limits.maxFileSize < m.size then .error (.tooLarge m.size limits.maxFileSize)
  else if requireExtension && !m.isSource then .error (.invalidExtension m.extension)
  else taken limits m contents

/-- What reading gives for what there is at a path, nothing being logged. -/
def outcome (limits : Limits) (requireExtension : Bool) (path : String) (probe : Probe) :
    Except FileError SourceFile :=
  if path.isEmpty then .error (.invalidPath "")
  else
    match probe with
    | .missing => .error (.notFound path)
    | .notFile => .error (.invalidPath path)
    | .unresolved failure => .error (.ofIo failure path "resolve path")
    | .unmeasured resolved failure => .error (.ofIo failure resolved "read metadata for")
    | .unreadable resolved size failure =>
      admitted limits requireExtension (describe resolved size) (.error failure)
    | .file resolved bytes =>
      admitted limits requireExtension (describe resolved bytes.size) (.ok bytes)

/-- Bytes encode a text if they are what it is written as. -/
theorem fromUTF8?_eq_some_iff {bytes : ByteArray} {text : String} :
    String.fromUTF8? bytes = some text ↔ text.toUTF8 = bytes := by
  constructor
  · intro h
    unfold String.fromUTF8? at h
    split at h
    · cases h
      rfl
    · cases h
  · rintro rfl
    unfold String.fromUTF8?
    exact dif_pos text.isValidUTF8

section

variable {limits : Limits} {m : FileMetadata} {bytes : ByteArray}
variable {contents : Except IoFailure ByteArray}

/-- The text that is read is the one that the bytes encode. -/
theorem toUTF8_of_decoded {f : SourceFile} (h : decoded limits m bytes = .ok f) :
    f.text.toUTF8 = bytes := by
  unfold decoded at h
  split at h
  · cases h
  · next text htext =>
    dsimp only at h
    split at h
    · cases h
    · cases h
      exact fromUTF8?_eq_some_iff.mp htext

theorem decoded_ne_invalidExtension (extension : Option String) :
    decoded limits m bytes ≠ .error (.invalidExtension extension) := by
  unfold decoded
  split
  · rintro ⟨⟩
  · dsimp only
    split <;> rintro ⟨⟩

/-- Where bytes were not given, there is no text. -/
theorem exists_of_taken_eq_ok {f : SourceFile} (h : taken limits m contents = .ok f) :
    contents = .ok f.text.toUTF8 := by
  cases contents with
  | error failure => cases h
  | ok bytes => rw [toUTF8_of_decoded h]

/-- A call that failed is no matter of the extension. -/
theorem ofIo_ne_invalidExtension (failure : IoFailure) (path action : String)
    (extension : Option String) : FileError.ofIo failure path action ≠ .invalidExtension extension := by
  unfold FileError.ofIo
  split <;> rintro ⟨⟩

theorem taken_ne_invalidExtension (extension : Option String) :
    taken limits m contents ≠ .error (.invalidExtension extension) := by
  cases contents with
  | error failure => exact fun h => ofIo_ne_invalidExtension _ _ _ _ (Except.error.inj h)
  | ok bytes => exact decoded_ne_invalidExtension extension

/-- Unless the extension is asked for, only the size of a file that was found is looked at. -/
theorem admitted_false : admitted limits false m contents =
    if limits.maxFileSize < m.size then .error (.tooLarge m.size limits.maxFileSize)
    else taken limits m contents := by
  rw [admitted, Bool.false_and, if_neg Bool.false_ne_true]

end

/-! ### What reading logs -/

/-- What is logged about a result. -/
def verdict : Except FileError SourceFile → Level × Code × Option Position
  | .error e => (.error, e.code, none)
  | .ok _ => (.info, .fileRead, none)

/-- What some events say, details apart. -/
def reported (es : List Event) : List (Level × Code × Option Position) :=
  (es.filter fun e => e.level != .debug).map Event.heading

/-- A computation has a result, and it logs one event about it and otherwise details, whatever the journal
is. -/
def Reports (c : Logged (Except FileError SourceFile)) (result : Except FileError SourceFile) : Prop :=
  ∃ es, (∀ j : Journal, c j = (result, j.extended (j.entries es))) ∧ reported es = [verdict result]

theorem reports_fail (error : FileError) (message : String) (details : List (String × String)) :
    Reports (fail error message details) (.error error) := by
  refine ⟨[(Event.error error.code message).attachAll details], ?_, ?_⟩
  · intro j
    exact congrArg (Except.error error, ·) (Journal.record_eq_extended ..)
  · unfold reported
    rw [List.filter_singleton, Event.level_attachAll]
    exact congrArg (fun h => [h]) (Event.heading_attachAll ..)

/-- Details that are logged first make no difference. -/
theorem Reports.behind_detail {c : Logged (Except FileError SourceFile)}
    {result : Except FileError SourceFile} (h : Reports c result) {e : Event} (he : e.level = .debug) :
    Reports (do Logged.record e; c) result := by
  obtain ⟨es, hc, hreported⟩ := h
  refine ⟨e :: es, ?_, ?_⟩
  · intro j
    show c (j.record e) = _
    rw [hc, Journal.record_eq_extended, Journal.entries_extended, Journal.extended_extended,
      ← Journal.entries_append]
    rfl
  · unfold reported at hreported ⊢
    rw [List.filter_cons_of_neg (by simp [he])]
    exact hreported

variable (limits : Limits) (settings : FileSettings)

theorem heading_readEvent (path : String) (f : SourceFile) :
    (readEvent limits settings path f).heading = (.info, .fileRead, none) := by
  unfold readEvent
  dsimp only
  split
  · exact Event.heading_attachAll ..
  · exact Event.heading_attachAll ..

theorem reports_success (path : String) (f : SourceFile) :
    Reports (do Logged.record (readEvent limits settings path f); return .ok f) (.ok f) := by
  have hheading := heading_readEvent limits settings path f
  have hlevel : (readEvent limits settings path f).level = .info := congrArg Prod.fst hheading
  refine ⟨[readEvent limits settings path f], ?_, ?_⟩
  · intro j
    exact congrArg (Except.ok f, ·) (Journal.record_eq_extended ..)
  · unfold reported
    rw [List.filter_singleton, hlevel]
    exact congrArg (fun h => [h]) hheading

theorem reports_decode (path : String) (m : FileMetadata) (bytes : ByteArray) :
    Reports (decode limits settings path m bytes) (decoded limits m bytes) := by
  unfold decode decoded
  cases String.fromUTF8? bytes with
  | none => exact reports_fail ..
  | some text =>
    dsimp only
    split
    · exact reports_fail ..
    · exact reports_success ..

theorem reports_readFound (path : String) (m : FileMetadata) (contents : Except IoFailure ByteArray) :
    Reports (readFound limits settings path m contents)
      (admitted limits settings.requireExtension m contents) := by
  refine Reports.behind_detail ?_ (Event.level_attachAll ..)
  unfold admitted
  split
  · exact reports_fail ..
  · split
    · exact reports_fail ..
    · cases contents with
      | error failure => exact reports_fail ..
      | ok bytes => exact reports_decode ..

/-- Reading reports its result, whatever there is at the path. -/
theorem reports_read (disk : String → Probe) (path : String) :
    Reports (read limits settings disk path)
      (outcome limits settings.requireExtension path (disk path)) := by
  refine Reports.behind_detail ?_ rfl
  unfold outcome
  split
  · exact reports_fail ..
  · cases disk path with
    | missing | notFile | unresolved | unmeasured => exact reports_fail ..
    | unreadable | file => exact reports_readFound ..

theorem read_eq_outcome (disk : String → Probe) (path : String) (j : Journal) :
    (read limits settings disk path j).1 =
      outcome limits settings.requireExtension path (disk path) := by
  obtain ⟨es, hread, -⟩ := reports_read limits settings disk path
  rw [hread]

end SourceFile

/-! ### What is made of it -/

/-- What a check makes of the analysis of a file that was read. -/
def Checked.ofAnalysis (m : FileMetadata) (a : Except Syntax.SyntaxError Analysis) :
    Except Failure Checked :=
  (a.mapError Failure.rejected).map (⟨m, ·⟩)

theorem Checked.ofAnalysis_ne_unreadable (m : FileMetadata)
    (a : Except Syntax.SyntaxError Analysis) (e : FileError) :
    ofAnalysis m a ≠ .error (.unreadable e) := by
  cases a <;> rintro ⟨⟩

section

variable (limits : Limits) (preferences : Lexer.Preferences) (disk : String → Probe) (path : String)
variable (j k : Journal)

/-- A check analyzes the text that reading gives, with whatever journal. -/
theorem checkFile_eq (files : FileSettings) :
    (checkFile limits files preferences disk path j).1 =
      match SourceFile.outcome limits files.requireExtension path (disk path) with
      | .error e => .error (.unreadable e)
      | .ok f => Checked.ofAnalysis f.metadata (analyze limits preferences f.text k).1 := by
  rw [checkFile, Logged.withFile_fst, Logged.bind_apply, Logged.bind_apply,
    SourceFile.read_eq_outcome]
  cases SourceFile.outcome limits files.requireExtension path (disk path) with
  | error e => rfl
  | ok f =>
    have hanalyze (j : Journal) :
        (analyze limits preferences f.text j).1 = (analyze limits preferences f.text k).1 := rfl
    dsimp only
    rw [Logged.bind_apply, hanalyze]
    cases (analyze limits preferences f.text k).1 <;> rfl

/-- A list of tokens is that of the text that reading gives without asking for the extension. -/
theorem dumpTokens_eq :
    (dumpTokens limits preferences disk path j).1 =
      match SourceFile.outcome limits false path (disk path) with
      | .error e => .error (.unreadable e)
      | .ok f => .ok (tokensOf f.text).toArray := by
  rw [dumpTokens, Logged.withFile_fst, Logged.bind_apply, SourceFile.read_eq_outcome,
    FileSettings.forTokens]
  cases SourceFile.outcome limits false path (disk path) with
  | error e => rfl
  | ok f =>
    dsimp only
    rw [Logged.bind_apply, ← toList_collectTokens limits preferences _ j]
    rfl

end

/-! ### Lists of tokens and checks -/

/-- A file is found and is small enough, and its path, when all links are resolved, has another extension
than that of source files. -/
def LacksExtension (limits : Limits) (path : String) (probe : Probe) : Prop :=
  path ≠ "" ∧ ∃ m, probe.found? = some m ∧ m.size ≤ limits.maxFileSize ∧ m.isSource = false

/-- A list of tokens and a check are about the same file: either it cannot be read and both fail with the
same error, or the list is that of its text and the check is the analysis of its text. -/
def Agree (limits : Limits) (preferences : Lexer.Preferences) (probe : Probe)
    (listed : Except Failure (Array Token)) (checked : Except Failure Checked) : Prop :=
  (∃ e, listed = .error (.unreadable e) ∧ checked = .error (.unreadable e)) ∨
    ∃ resolved text m tokens, probe = .file resolved text.toUTF8 ∧ listed = .ok tokens ∧
      tokens.toList = tokensOf text ∧
      ∀ j, checked = Checked.ofAnalysis m (analyze limits preferences text j).1

namespace SourceFile

variable {limits : Limits} {path : String} {probe : Probe}

/-- A file that was found is read as its bytes were given. -/
theorem outcome_of_found (limits : Limits) {m : FileMetadata} (hpath : path ≠ "")
    (hfound : probe.found? = some m) :
    ∃ contents, (∀ bytes, contents = .ok bytes → ∃ resolved, probe = .file resolved bytes) ∧
      ∀ require, outcome limits require path probe = admitted limits require m contents := by
  have hempty : ¬ path.isEmpty = true := by simpa using hpath
  have houtcome (require : Bool) := (outcome.eq_def limits require path probe).trans (if_neg hempty)
  cases probe with
  | missing | notFile | unresolved | unmeasured => cases hfound
  | unreadable resolved size failure =>
    cases hfound
    exact ⟨.error failure, fun bytes h => (by cases h), houtcome⟩
  | file resolved bytes =>
    cases hfound
    exact ⟨.ok bytes, fun bytes' h => ⟨resolved, congrArg _ (Except.ok.inj h)⟩, houtcome⟩

/-- The extension matters only where a file is found. -/
theorem outcome_cases (limits : Limits) (path : String) (probe : Probe) :
    (∃ e, (∀ extension, e ≠ .invalidExtension extension) ∧
      ∀ require, outcome limits require path probe = .error e) ∨
    path ≠ "" ∧ ∃ m contents, probe.found? = some m ∧
      (∀ bytes, contents = .ok bytes → ∃ resolved, probe = .file resolved bytes) ∧
      ∀ require, outcome limits require path probe = admitted limits require m contents := by
  by_cases hempty : path.isEmpty = true
  · left
    refine ⟨.invalidPath "", by simp, fun require => ?_⟩
    rw [outcome.eq_def, if_pos hempty]
  · have hpath : path ≠ "" := by simpa using hempty
    have houtcome (require : Bool) := (outcome.eq_def limits require path probe).trans (if_neg hempty)
    have hcontents {m : FileMetadata} (hfound : probe.found? = some m) :=
      outcome_of_found limits hpath hfound
    cases probe with
    | missing => exact .inl ⟨.notFound path, by simp, houtcome⟩
    | notFile => exact .inl ⟨.invalidPath path, by simp, houtcome⟩
    | unresolved | unmeasured => exact .inl ⟨_, ofIo_ne_invalidExtension _ _ _, houtcome⟩
    | unreadable | file =>
      obtain ⟨contents, hcontents⟩ := hcontents rfl
      exact .inr ⟨hpath, _, contents, rfl, hcontents⟩

theorem outcome_of_lacksExtension (h : LacksExtension limits path probe) :
    ∃ extension, outcome limits true path probe = .error (.invalidExtension extension) := by
  obtain ⟨hpath, m, hfound, hsize, hsource⟩ := h
  obtain ⟨contents, -, hadmitted⟩ := outcome_of_found limits hpath hfound
  refine ⟨m.extension, ?_⟩
  rw [hadmitted, admitted, if_neg (Nat.not_lt.mpr hsize), hsource]
  rfl

theorem outcome_eq_of_not_lacksExtension (h : ¬ LacksExtension limits path probe) :
    outcome limits true path probe = outcome limits false path probe := by
  rcases outcome_cases limits path probe with ⟨e, -, he⟩ | ⟨hpath, m, contents, hfound, -, hadmitted⟩
  · rw [he, he]
  · rw [hadmitted, hadmitted, admitted_false, admitted]
    split
    · rfl
    · next hsize =>
      have hsource : m.isSource = true := by
        by_contra hsource
        exact h ⟨hpath, m, hfound, Nat.not_lt.mp hsize, by simpa using hsource⟩
      rw [hsource]
      rfl

theorem outcome_false_ne_invalidExtension (extension : Option String) :
    outcome limits false path probe ≠ .error (.invalidExtension extension) := by
  intro h
  rcases outcome_cases limits path probe with ⟨e, hother, he⟩ | ⟨-, m, contents, -, -, hadmitted⟩
  · cases (he false).symm.trans h
    exact hother extension rfl
  · rw [hadmitted, admitted_false] at h
    split at h
    · cases h
    · exact taken_ne_invalidExtension extension h

theorem exists_of_outcome_eq_ok {f : SourceFile} (h : outcome limits false path probe = .ok f) :
    ∃ resolved, probe = .file resolved f.text.toUTF8 := by
  rcases outcome_cases limits path probe with ⟨e, -, he⟩ | ⟨-, m, contents, -, hfile, hadmitted⟩
  · cases (he false).symm.trans h
  · rw [hadmitted, admitted_false] at h
    split at h
    · cases h
    · exact hfile _ (exists_of_taken_eq_ok h)

end SourceFile

section

variable {limits : Limits} {files : FileSettings} {preferences : Lexer.Preferences}
variable {disk : String → Probe} {path : String}

/-- A list of tokens and a check agree if reading gives the same for both. -/
theorem agree_of_outcome_eq
    (h : SourceFile.outcome limits files.requireExtension path (disk path) =
      SourceFile.outcome limits false path (disk path)) (j k : Journal) :
    Agree limits preferences (disk path) (dumpTokens limits preferences disk path j).1
      (checkFile limits files preferences disk path k).1 := by
  have hlisted := dumpTokens_eq limits preferences disk path j
  have hchecked (l : Journal) := checkFile_eq limits preferences disk path k l files
  rw [h] at hchecked
  cases hread : SourceFile.outcome limits false path (disk path) with
  | error e =>
    rw [hread] at hlisted hchecked
    exact .inl ⟨e, hlisted, hchecked k⟩
  | ok f =>
    rw [hread] at hlisted hchecked
    obtain ⟨resolved, hprobe⟩ := SourceFile.exists_of_outcome_eq_ok hread
    exact .inr ⟨resolved, f.text, f.metadata, _, hprobe, hlisted, rfl, hchecked⟩

/-- Where the extension is asked for, a check refuses a file that lacks it. -/
theorem checkFile_of_lacksExtension (hrequire : files.requireExtension = true)
    (h : LacksExtension limits path (disk path)) (j : Journal) :
    ∃ extension, (checkFile limits files preferences disk path j).1 =
      .error (.unreadable (.invalidExtension extension)) := by
  obtain ⟨extension, hrefused⟩ := SourceFile.outcome_of_lacksExtension h
  exact ⟨extension, by rw [checkFile_eq limits preferences disk path j j, hrequire, hrefused]⟩

/-- No file is refused for its extension when its tokens are listed. -/
theorem dumpTokens_ne_invalidExtension (j : Journal) (extension : Option String) :
    (dumpTokens limits preferences disk path j).1 ≠
      .error (.unreadable (.invalidExtension extension)) := by
  rw [dumpTokens_eq]
  cases hread : SourceFile.outcome limits false path (disk path) with
  | error e =>
    rintro ⟨⟩
    exact SourceFile.outcome_false_ne_invalidExtension extension hread
  | ok f => rintro ⟨⟩

/-- Where a list of tokens and a check agree, a file is refused by both or by none. -/
theorem Agree.listed_eq {probe : Probe} {listed : Except Failure (Array Token)}
    {checked : Except Failure Checked} {e : FileError}
    (h : Agree limits preferences probe listed checked) (he : checked = .error (.unreadable e)) :
    listed = .error (.unreadable e) := by
  rcases h with ⟨e', hlisted, hchecked⟩ | ⟨resolved, text, m, tokens, -, -, -, hanalysis⟩
  · cases hchecked.symm.trans he
    exact hlisted
  · exact absurd ((hanalysis (.empty ⟨.info, true, 0⟩)).symm.trans he)
      (Checked.ofAnalysis_ne_unreadable _ _ _)

end

/-- The extension is asked for by one value of the environment. -/
theorem Settings.requireExtension_ofEnvironment_iff (env : String → Option String) :
    (ofEnvironment env).files.requireExtension = true ↔
      env "DRAC_REQUIRE_DRAC_EXTENSION" = some "true" := by
  show ((env "DRAC_REQUIRE_DRAC_EXTENSION").bind boolOfSetting?).getD false = true ↔ _
  cases env "DRAC_REQUIRE_DRAC_EXTENSION" with
  | none => simp
  | some value =>
    rw [Option.bind_some, Option.some_inj, boolOfSetting?.eq_def]
    split <;> simp_all

/-- **A list of tokens and a check in the same environment agree unless the extension is asked for and the
file lacks it.**  Then the check refuses the file for that, as the list never does. -/
theorem dumpTokens_agrees_iff (limits : Limits) (env : String → Option String)
    (disk : String → Probe) (path : String) (j k : Journal) :
    let settings := Settings.ofEnvironment env
    let listed := (dumpTokens limits settings.lexer disk path j).1
    let checked := (checkFile limits settings.files settings.lexer disk path k).1
    let missed := env "DRAC_REQUIRE_DRAC_EXTENSION" = some "true" ∧ LacksExtension limits path (disk path)
    (Agree limits settings.lexer (disk path) listed checked ↔ ¬ missed) ∧
      (missed → ∃ extension, checked = .error (.unreadable (.invalidExtension extension)) ∧
        listed ≠ .error (.unreadable (.invalidExtension extension))) := by
  intro settings listed checked missed
  have hrequire : settings.files.requireExtension = true ↔ _ :=
    Settings.requireExtension_ofEnvironment_iff env
  have hother (extension : Option String) : listed ≠ .error (.unreadable (.invalidExtension extension)) :=
    dumpTokens_ne_invalidExtension j extension
  have hmissed : missed → ∃ extension, checked = .error (.unreadable (.invalidExtension extension)) :=
    fun h => checkFile_of_lacksExtension (hrequire.mpr h.1) h.2 k
  refine ⟨⟨fun hagree h => ?_, fun h => agree_of_outcome_eq ?_ j k⟩, fun h => ?_⟩
  · obtain ⟨extension, hrefused⟩ := hmissed h
    exact hother extension (hagree.listed_eq hrefused)
  · cases hreq : settings.files.requireExtension with
    | false => rfl
    | true =>
      exact SourceFile.outcome_eq_of_not_lacksExtension fun hlacks => h ⟨hrequire.mp hreq, hlacks⟩
  · obtain ⟨extension, hrefused⟩ := hmissed h
    exact ⟨extension, hrefused, hother extension⟩

/-- A file of another extension is refused by the check alone. -/
theorem dumpTokens_of_other_extension :
    let limits := Profile.development.limits
    let env (name : String) := if name = "DRAC_REQUIRE_DRAC_EXTENSION" then some "true" else none
    let settings := Settings.ofEnvironment env
    let disk (path : String) : Probe := .file ("/w/" ++ path) "var x;".toUTF8
    let j := Journal.empty (settings.journalRules 4096)
    (checkFile limits settings.files settings.lexer disk "a.txt" j).1 =
        .error (.unreadable (.invalidExtension (some "txt"))) ∧
      (dumpTokens limits settings.lexer disk "a.txt" j).1 =
        .ok #[⟨some "var", .kwVar, ⟨1, 1⟩⟩, ⟨some "x", .identifier, ⟨1, 5⟩⟩,
          ⟨some ";", .semicolon, ⟨1, 6⟩⟩, .eof ⟨1, 7⟩] := by
  intro limits env settings disk j
  have hrequire : settings.files.requireExtension = true := by decide +kernel
  have hrefused : SourceFile.outcome limits true "a.txt" (disk "a.txt") =
      .error (.invalidExtension (some "txt")) := by decide +kernel
  have hread : SourceFile.outcome limits false "a.txt" (disk "a.txt") =
      .ok ⟨"var x;", ⟨"/w/a.txt", 6, some "txt", 1⟩⟩ := by
    have hdescribe : SourceFile.describe "/w/a.txt" "var x;".toUTF8.size =
        ⟨"/w/a.txt", 6, some "txt", 0⟩ := by decide +kernel
    have hlines : Text.lineCount "var x;" = 1 := by simp [Text.lineCount, Text.lineStep]
    have hempty : ¬ "a.txt".isEmpty = true := by decide
    rw [SourceFile.outcome.eq_def, if_neg hempty]
    show SourceFile.admitted limits false (SourceFile.describe "/w/a.txt" "var x;".toUTF8.size) _ = _
    rw [SourceFile.admitted_false, hdescribe, SourceFile.taken, SourceFile.decoded,
      SourceFile.fromUTF8?_eq_some_iff.mpr rfl]
    dsimp only
    rw [hlines]
    rfl
  have htokens : tokensOf "var x;" = [⟨some "var", .kwVar, ⟨1, 1⟩⟩,
      ⟨some "x", .identifier, ⟨1, 5⟩⟩, ⟨some ";", .semicolon, ⟨1, 6⟩⟩, .eof ⟨1, 7⟩] := by
    decide +kernel
  refine ⟨?_, ?_⟩
  · rw [checkFile_eq limits settings.lexer disk "a.txt" j j, hrequire, hrefused]
  · rw [dumpTokens_eq, hread]
    exact congrArg (fun ts : List Token => Except.ok ts.toArray) htokens

end Drac
