import Drac.Proofs.EventTrace

/-!
# The file that events carry

Work on a file ends with no file being worked on, and not with the one that was worked on before.  So work
on one file within the work on another takes the outer file away: the events behind the inner work carry no
file.  Nothing else goes wrong.  A computation that only logs and works on files starts with its own file,
and each of its events carries the innermost file around it unless some work on a file right inside the same
scope has ended before.

## Main definitions

* `Log.Script` — a computation that only logs and works on files.
* `Log.Script.carried`, `Log.Script.bracketed` — the files that its events carry, and those that are worked on
  around them.
* `Log.Script.LogsFirst` — no event is logged right behind the work on a file.
* `Log.Journal.filed` — what a journal keeps of events, each with a file.

## Main results

* `Log.Script.run_eq` — what such a computation makes of a journal.
* `Log.Script.carried_eq_bracketed_iff` — events carry the files around them if they are logged first.
* `Log.Script.withFile_brackets_iff` — **work on a file gives back the file from before only if there was
  none.**
-/

namespace Drac.Log

/-! ### Scripts -/

/-- A computation that only logs and works on files, in any order and to any depth.  Neither gives it
anything to decide upon, so it takes one course. -/
inductive Script
  /-- Nothing more. -/
  | done
  /-- An event is logged. -/
  | log (e : Event) (next : Script)
  /-- A file is worked on. -/
  | within (f : FileContext) (body next : Script)

namespace Script

/-- The computation that a script describes. -/
def run : Script → Logged Unit
  | done => return ()
  | log e next => do
    Logged.record e
    next.run
  | within f body next => do
    Logged.withFile f body.run
    next.run

/-- The file that is worked on behind a script. -/
def left : Script → Option FileContext → Option FileContext
  | done, file => file
  | log _ next, file => next.left file
  | within _ _ next, _ => next.left none

/-- The events of a script, each with the file that it carries: none behind the work on a file. -/
def carried : Script → Option FileContext → List (Option FileContext × Event)
  | done, _ => []
  | log e next, file => (file, e) :: next.carried file
  | within f body next, _ => body.carried (some f) ++ next.carried none

/-- The events of a script, each with the innermost file that is worked on around it. -/
def bracketed : Script → Option FileContext → List (Option FileContext × Event)
  | done, _ => []
  | log e next, file => (file, e) :: next.bracketed file
  | within f body next, file => body.bracketed (some f) ++ next.bracketed file

/-- No event is logged behind the work on a file that is right inside the same scope.  The flag says whether
there has been such work. -/
def LogsFirst : Bool → Script → Prop
  | _, done => True
  | behind, log _ next => behind = false ∧ next.LogsFirst behind
  | _, within _ body next => body.LogsFirst false ∧ next.LogsFirst true

end Script

/-! ### Journals -/

namespace JournalRules

/-- What a journal keeps of events, each of them logged while a file is worked on or none. -/
def filed (r : JournalRules) (es : List (Option FileContext × Event)) : List Event :=
  es.flatMap fun e => Journal.entries ⟨r, e.1, #[]⟩ [e.2]

theorem filed_cons (r : JournalRules) (e : Option FileContext × Event)
    (es : List (Option FileContext × Event)) :
    r.filed (e :: es) = Journal.entries ⟨r, e.1, #[]⟩ [e.2] ++ r.filed es :=
  List.flatMap_cons ..

theorem filed_append (r : JournalRules) (es fs : List (Option FileContext × Event)) :
    r.filed (es ++ fs) = r.filed es ++ r.filed fs :=
  List.flatMap_append ..

end JournalRules

/-- What follows the work on a file starts from where it ended, with no file being worked on. -/
theorem Logged.withFile_snd {α : Type} (f : FileContext) (body : Logged α) (j : Journal) :
    (Logged.withFile f body j).2 = { (body { j with file := some f }).2 with file := none } := rfl

/-! ### Runs -/

namespace Script

/-- A script logs its events with the files that they carry. -/
theorem run_eq (s : Script) (j : Journal) :
    (s.run j).2 = { j.extended (j.rules.filed (s.carried j.file)) with file := s.left j.file } := by
  induction s generalizing j with
  | done => exact (Journal.extended_nil j).symm
  | log e next ih =>
    show (next.run (j.record e)).2 = _
    rw [Journal.record_eq_extended, ih, Journal.extended_extended, carried, JournalRules.filed_cons]
    rfl
  | within f body next ihbody ihnext =>
    have hbody : (Logged.withFile f body.run j).2 =
        Journal.extended { j with file := none } (j.rules.filed (body.carried (some f))) := by
      rw [Logged.withFile_snd, ihbody]
      rfl
    show (next.run (Logged.withFile f body.run j).2).2 = _
    rw [hbody, ihnext, Journal.extended_extended, carried, JournalRules.filed_append]
    rfl

/-- Only the files are at stake: the events are the same, in the same order. -/
theorem map_snd_carried (s : Script) (file file' : Option FileContext) :
    (s.carried file).map Prod.snd = (s.bracketed file').map Prod.snd := by
  induction s generalizing file file' with
  | done => rfl
  | log e next ih => exact congrArg (e :: ·) (ih file file')
  | within f body next ihbody ihnext =>
    unfold carried bracketed
    rw [List.map_append, List.map_append, ihbody (some f) (some f), ihnext none file']

/-- Within a file the events of a script carry the files around them just if they are logged first. -/
theorem carried_eq_bracketed_iff (f : FileContext) (s : Script) (behind : Bool) :
    s.carried (if behind then none else some f) = s.bracketed (some f) ↔ s.LogsFirst behind := by
  induction s generalizing f behind with
  | done => exact iff_of_true rfl trivial
  | log e next ih =>
    unfold carried bracketed LogsFirst
    rw [List.cons.injEq, ih, Prod.mk.injEq]
    cases behind <;> simp
  | within g body next ihbody ihnext =>
    have hlength : (body.carried (some g)).length = (body.bracketed (some g)).length := by
      simpa using congrArg List.length (map_snd_carried body (some g) (some g))
    unfold carried bracketed LogsFirst
    rw [← ihbody g false, ← ihnext f true]
    constructor
    · intro h
      exact List.append_inj h hlength
    · rintro ⟨hbody, hnext⟩
      exact congrArg₂ (· ++ ·) hbody hnext

/-- **Work on a file gives back the file from before only if there was none.**  Whatever file was worked on
before, a script that works on a file starts with that file, and none is worked on behind it.  Its events are
logged as they are carried, and they carry the files around them just if in each scope they are logged before
any work on a further file.  The events as such are those of the script, in order. -/
theorem withFile_brackets_iff (f : FileContext) (s : Script) (j : Journal) :
    let seen := Logged.withFile f do
      let file ← Logged.currentFile
      s.run
      return file
    let after := (Logged.withFile f s.run j).2
    (seen j).1 = some f ∧ after.file = none ∧ (after.file = j.file ↔ j.file = none) ∧
      after = { j.extended (j.rules.filed (s.carried (some f))) with file := none } ∧
      (s.carried (some f)).map Prod.snd = (s.bracketed (some f)).map Prod.snd ∧
      (s.carried (some f) = s.bracketed (some f) ↔ s.LogsFirst false) := by
  intro seen after
  refine ⟨rfl, rfl, eq_comm, ?_, map_snd_carried s _ _, carried_eq_bracketed_iff f s false⟩
  show (Logged.withFile f s.run j).2 = _
  rw [Logged.withFile_snd, run_eq]
  rfl

/-- An event behind the work on an inner file carries no file, though the work on the outer file goes on. -/
theorem withFile_forgets_outer :
    let outer : FileContext := ⟨"outer", 1⟩
    let inner : FileContext := ⟨"inner.drac", 2⟩
    let j : Journal := .empty ⟨.debug, true, 4096⟩
    let seen := Logged.withFile outer do
      let inside ← Logged.withFile inner Logged.currentFile
      return (inside, ← Logged.currentFile)
    let s : Script := .within inner .done (.log (.info "outside") .done)
    (seen j).1 = (some inner, none) ∧
      (Logged.withFile outer s.run j).2.events.toList = [.info "outside"] ∧
      j.rules.filed (s.bracketed (some outer)) = [(Event.info "outside").attachAll outer.details] ∧
      ¬ ∀ (k : Journal) (f : FileContext) (t : Script), (Logged.withFile f t.run k).2.file = k.file := by
  intro outer inner j seen s
  refine ⟨rfl, by decide +kernel, by decide +kernel, ?_⟩
  intro h
  have hlost : none = some outer := h { j with file := some outer } inner .done
  cases hlost

end Script

end Drac.Log
