import Drac.File.Tree
import Drac.Proofs.Reading

/-!
# Lookups in directory trees

A tree in memory stands for the disk, so what is put into it must be found again.  Writing a file changes
where a path leads only if it led to the place of the file.  A link, and a directory, is put only where
nothing was, and every path that led to something still leads there.  At the link itself a path goes on with
the target, from the directory that the link is in.

## Main definitions

* `FileTree.Place.Holds` — a tree has at a place what is said about it.
* `FileTree.Place.written` — where a path leads after a file was written.

## Main results

* `FileTree.walk_put_file`, `FileTree.walk_put_of_free` — lookups after something was put.
* `FileTree.walk_append` — a path is followed part by part.
* `FileTree.walk_link` — **a link leads where its target leads.**
* `FileTree.read_write` — **a file that was written is read as it was written.**
-/

namespace Drac.FileTree

variable {t : FileTree} {links : ℕ} {here : Option (List String)} {path : List String}
variable {place : List String}

/-! ### Places -/

/-- What was put at a place is there, and nothing has changed elsewhere. -/
theorem node?_put (t : FileTree) (place other : List String) (n : Node) :
    (t.put place n).node? other = if place = other then some n else t.node? other := by
  unfold put node?
  rw [List.find?_cons]
  by_cases h : place = other
  · rw [if_pos h, h, beq_self_eq_true]
    rfl
  · rw [if_neg h, beq_eq_false_iff_ne.mpr h]

/-- A tree has at a place what is said about it. -/
def Place.Holds (t : FileTree) : Place → Prop
  | directory _ | outside => True
  | file place bytes => t.node? place = some (.file bytes)
  | free place => t.node? place = none

/-- At a name the path goes on by what there is. -/
theorem walk_name {s : String} {here : List String} (hs : ¬ (s = "" ∨ s = ".")) (hup : s ≠ "..")
    (hlong : ¬ maxNameSize < s.utf8ByteSize) : t.walk links (some here) (s :: path) =
      match t.node? (here ++ [s]) with
      | none => if path = [] then some (.free (here ++ [s])) else none
      | some .directory => t.walk links (some (here ++ [s])) path
      | some (.file bytes) => if path = [] then some (.file (here ++ [s]) bytes) else none
      | some (.link target) =>
        match links with
        | 0 => none
        | links + 1 =>
          t.walk links (if target.startsWith "/" then none else some here) (names target ++ path) := by
  rw [walk]
  exact (if_neg hs).trans ((if_neg hup).trans (if_neg hlong))

/-- A path leads to what there is. -/
theorem holds_of_walk {p : Place} (h : t.walk links here path = some p) : p.Holds t := by
  fun_induction walk t links here path with
  | case1 | case2 =>
    cases h
    trivial
  | case4 | case7 | case9 | case12 | case13 => cases h
  | case8 _ _ _ _ _ _ hnone =>
    cases h
    exact hnone
  | case11 _ _ _ _ _ _ _ hfile =>
    cases h
    exact hfile
  | case3 _ _ _ _ ih => exact ih h
  | case5 _ _ _ _ _ ih => exact ih h
  | case6 _ _ _ _ ih => exact ih h
  | case10 _ _ _ _ _ _ _ _ ih => exact ih h
  | case14 _ _ _ _ _ _ _ _ _ ih => exact ih h

/-- The rest of a path leads on from the directory that the first part leads to, with as many links as are
left. -/
theorem walk_append (h : t.walk links here path = some (.directory place)) :
    ∃ left ≤ links, ∀ rest, t.walk links here (path ++ rest) = t.walk left (some place) rest := by
  fun_induction walk t links here path with
  | case1 links here =>
    cases h
    exact ⟨links, Nat.le_refl _, fun _ => rfl⟩
  | case2 | case4 | case7 | case8 | case9 | case11 | case12 | case13 => cases h
  | case3 links s path hs ih =>
    obtain ⟨left, hle, hrest⟩ := ih h
    refine ⟨left, hle, fun rest => ?_⟩
    rw [List.cons_append, walk, if_pos hs, hrest]
  | case5 links s path here hs ih =>
    obtain ⟨left, hle, hrest⟩ := ih h
    refine ⟨left, hle, fun rest => ?_⟩
    rw [List.cons_append, walk, if_pos hs, hrest]
  | case6 links path here hs ih =>
    obtain ⟨left, hle, hrest⟩ := ih h
    refine ⟨left, hle, fun rest => ?_⟩
    rw [List.cons_append, walk, if_neg hs, if_pos rfl]
    exact hrest rest
  | case10 links s path here hs hup hlong hnode ih =>
    obtain ⟨left, hle, hrest⟩ := ih h
    refine ⟨left, hle, fun rest => ?_⟩
    rw [List.cons_append, walk_name hs hup hlong, hnode]
    exact hrest rest
  | case14 s path here hs hup hlong target hnode links ih =>
    obtain ⟨left, hle, hrest⟩ := ih h
    refine ⟨left, Nat.le_succ_of_le hle, fun rest => ?_⟩
    rw [List.cons_append, walk_name hs hup hlong, hnode]
    dsimp only
    rw [← List.append_assoc]
    exact hrest rest

/-! ### Putting -/

/-- What was put where nothing was is in the way of no path that led to something else. -/
theorem walk_put_of_free {p : Place} (hfree : t.node? place = none) (n : Node)
    (h : t.walk links here path = some p) (hp : p ≠ .free place) :
    (t.put place n).walk links here path = some p := by
  have hother {other : List String} {m : Node} (hm : t.node? other = some m) :
      (t.put place n).node? other = some m := by
    rw [node?_put, if_neg, hm]
    rintro rfl
    cases hfree.symm.trans hm
  fun_induction walk t links here path with
  | case1 | case2 => rwa [walk]
  | case4 | case7 | case9 | case12 | case13 => cases h
  | case3 links s path hs ih =>
    rw [walk, if_pos hs]
    exact ih h
  | case5 links s path here hs ih =>
    rw [walk, if_pos hs]
    exact ih h
  | case6 links path here hs ih =>
    rw [walk, if_neg hs, if_pos rfl]
    exact ih h
  | case8 links s here hs hup hlong hnode =>
    cases h
    have hne : place ≠ here ++ [s] := by
      rintro rfl
      exact hp rfl
    rw [walk_name hs hup hlong, node?_put, if_neg hne, hnode]
    rfl
  | case10 links s path here hs hup hlong hnode ih =>
    rw [walk_name hs hup hlong, hother hnode]
    exact ih h
  | case11 links s here hs hup hlong bytes hnode =>
    rw [walk_name hs hup hlong, hother hnode]
    exact h
  | case14 s path here hs hup hlong target hnode links ih =>
    rw [walk_name hs hup hlong, hother hnode]
    exact ih h

/-- Where a path leads after a file was written at a place. -/
def Place.written (place : List String) (bytes : ByteArray) : Place → Place
  | file other old => if place = other then .file place bytes else .file other old
  | free other => if place = other then .file place bytes else .free other
  | p => p

/-- At a name where a file or nothing was, a path that ends there leads to the file that was put there. -/
theorem walk_name_put_file {s : String} {here : List String} (hs : ¬ (s = "" ∨ s = "."))
    (hup : s ≠ "..") (hlong : ¬ maxNameSize < s.utf8ByteSize)
    (hnode : t.node? (here ++ [s]) = none ∨ ∃ old, t.node? (here ++ [s]) = some (.file old))
    (bytes : ByteArray) : (t.put place (.file bytes)).walk links (some here) (s :: path) =
      (t.walk links (some here) (s :: path)).map (Place.written place bytes) := by
  rw [walk_name hs hup hlong, walk_name hs hup hlong, node?_put]
  -- Whether the path ends here, and whether the file was put here, is all that matters.
  rcases hnode with hnode | ⟨old, hnode⟩
  · by_cases hpath : path = [] <;> by_cases hp : place = here ++ [s] <;>
      simp [hnode, hpath, hp, Place.written]
  · by_cases hpath : path = [] <;> by_cases hp : place = here ++ [s] <;>
      simp [hnode, hpath, hp, Place.written]

/-- A file that is put where a file or nothing was changes where a path leads only if it led there. -/
theorem walk_put_file (hplace : ∀ n, t.node? place = some n → ∃ old, n = .file old)
    (bytes : ByteArray) : (t.put place (.file bytes)).walk links here path =
      (t.walk links here path).map (Place.written place bytes) := by
  have hother {other : List String} {m : Node} (hm : t.node? other = some m)
      (hfile : ∀ old, m ≠ .file old) : (t.put place (.file bytes)).node? other = some m := by
    rw [node?_put, if_neg, hm]
    rintro rfl
    obtain ⟨old, rfl⟩ := hplace m hm
    exact hfile old rfl
  induction links, here, path using walk.induct t with
  | case1 | case2 => rw [walk, walk]; rfl
  | case3 links s path hs ih => rwa [walk, walk, if_pos hs, if_pos hs]
  | case4 links s path hs => rw [walk, walk, if_neg hs, if_neg hs]; rfl
  | case5 links s path here hs ih => rwa [walk, walk, if_pos hs, if_pos hs]
  | case6 links path here hs ih =>
    rwa [walk, walk, if_neg hs, if_pos rfl, if_neg hs, if_pos rfl]
  | case7 links s path here hs hup hlong =>
    rw [walk, walk, if_neg hs, if_neg hup, if_pos hlong, if_neg hs, if_neg hup, if_pos hlong]
    rfl
  | case8 links s here hs hup hlong hnode =>
    exact walk_name_put_file hs hup hlong (.inl hnode) bytes
  | case9 links s path here hs hup hlong hnode =>
    exact walk_name_put_file hs hup hlong (.inl hnode) bytes
  | case10 links s path here hs hup hlong hnode ih =>
    rw [walk_name hs hup hlong, walk_name hs hup hlong, hother hnode (by simp), hnode]
    exact ih
  | case11 links s here hs hup hlong old hnode =>
    exact walk_name_put_file hs hup hlong (.inr ⟨old, hnode⟩) bytes
  | case12 links s path here hs hup hlong old hnode =>
    exact walk_name_put_file hs hup hlong (.inr ⟨old, hnode⟩) bytes
  | case13 s path here hs hup hlong target hnode =>
    rw [walk_name hs hup hlong, walk_name hs hup hlong, hother hnode (by simp), hnode]
    rfl
  | case14 s path here hs hup hlong target hnode links ih =>
    rw [walk_name hs hup hlong, walk_name hs hup hlong, hother hnode (by simp), hnode]
    exact ih

/-! ### Links -/

/-- A name is free in the directory that a path leads to if it can be a name and nothing is there. -/
theorem exists_of_free? {name : String} (h : t.free? here path name = some place) :
    ∃ dir, t.walk maxLinks here path = some (.directory dir) ∧ place = dir ++ [name] ∧
      ¬ (name = "" ∨ name = ".") ∧ name ≠ ".." ∧ ¬ maxNameSize < name.utf8ByteSize ∧
      t.node? place = none := by
  unfold free? at h
  split at h
  · next dir hdir =>
    split at h
    · cases h
    · next hname =>
      split at h
      · cases h
      · next hnode =>
        cases h
        obtain ⟨hempty, hdot, hup, hlong⟩ : name ≠ "" ∧ name ≠ "." ∧ name ≠ ".." ∧
            ¬ maxNameSize < name.utf8ByteSize := by simpa using hname
        exact ⟨dir, hdir, rfl, by simp [hempty, hdot], hup, hlong, by simpa using hnode⟩
  · cases h

theorem dropLast_append_getLastD {names : List String} (h : names.getLastD "" ≠ "") :
    names.dropLast ++ [names.getLastD ""] = names := by
  rcases List.eq_nil_or_concat names with rfl | ⟨front, last, rfl⟩
  · exact absurd rfl h
  · simp

/-- **A link leads where its target leads**, from the directory that the link is in, unless too many links
are on the way. -/
theorem walk_link {path target : String}
    (h : (t.makeParent path).free? (start path) (names path).dropLast ((names path).getLastD "") =
      some place) :
    ∃ dir left, place = dir ++ [(names path).getLastD ""] ∧ left ≤ maxLinks ∧
      (t.link path target).walk maxLinks (start path) (names path) =
        match left with
        | 0 => none
        | left + 1 =>
          (t.link path target).walk left (if target.startsWith "/" then none else some dir)
            (names target) := by
  have hlink : t.link path target = (t.makeParent path).put place (.link target) := by
    unfold link
    dsimp only
    rw [h]
  obtain ⟨dir, hdir, rfl, hs, hup, hlong, hnode⟩ := exists_of_free? h
  have hfront : (t.link path target).walk maxLinks (start path) (names path).dropLast =
      some (.directory dir) := by
    rw [hlink]
    exact walk_put_of_free hnode _ hdir Place.noConfusion
  obtain ⟨left, hle, hrest⟩ := walk_append hfront
  refine ⟨dir, left, rfl, hle, ?_⟩
  have hempty : (names path).getLastD "" ≠ "" := fun hname => hs (.inl hname)
  have hlast := hrest [(names path).getLastD ""]
  rw [dropLast_append_getLastD hempty] at hlast
  rw [hlast, walk_name hs hup hlong, hlink, node?_put, if_pos rfl]
  cases left with
  | zero => rfl
  | succ left => simp only [List.append_nil]

/-! ### Files -/

theorem root_makeDirectories (t : FileTree) (here : Option (List String)) (done path : List String) :
    (t.makeDirectories here done path).root = t.root := by
  induction path generalizing t done with
  | nil => rfl
  | cons s path ih =>
    rw [makeDirectories, ih]
    split <;> rfl

/-- A path after a file was written leads to this file if it has led to its place, and otherwise as it did. -/
theorem resolve_write {path : String} (bytes : ByteArray)
    (hplace : (t.makeParent path).resolve path = some (.free place) ∨
      ∃ old, (t.makeParent path).resolve path = some (.file place old)) (other : String) :
    (t.write path bytes).resolve other =
      ((t.makeParent path).resolve other).map (Place.written place bytes) := by
  have hwrite : t.write path bytes = (t.makeParent path).put place (.file bytes) := by
    unfold write
    dsimp only
    rcases hplace with h | ⟨old, h⟩ <;> rw [h]
  have hnode : ∀ n, (t.makeParent path).node? place = some n → ∃ old, n = .file old := by
    intro n hn
    unfold resolve at hplace
    split at hplace
    · rcases hplace with h | ⟨old, h⟩ <;> cases h
    · rcases hplace with h | ⟨old, h⟩
      · cases hn.symm.trans (holds_of_walk h)
      · cases hn.symm.trans (holds_of_walk h)
        exact ⟨old, rfl⟩
  rw [hwrite, resolve, resolve]
  split
  · rfl
  · exact walk_put_file hnode bytes

/-- **A file that was written is read as it was written**: where its path led to a file or to a free name,
reading it admits just these bytes. -/
theorem read_write {path : String} {bytes : ByteArray} (limits : Limits) (settings : FileSettings)
    (j : Log.Journal) (hplace : (t.makeParent path).resolve path = some (.free place) ∨
      ∃ old, (t.makeParent path).resolve path = some (.file place old)) :
    (SourceFile.read limits settings (t.write path bytes).probe path j).1 =
      SourceFile.admitted limits settings.requireExtension
        (SourceFile.describe (t.root ++ "/" ++ "/".intercalate place) bytes.size) (.ok bytes) := by
  have hpath : ¬ path.isEmpty = true := by
    intro hempty
    have hnone : (t.makeParent path).resolve path = none := if_pos (.inl (by simpa using hempty))
    rw [hnone] at hplace
    rcases hplace with h | ⟨old, h⟩ <;> cases h
  have hresolve : (t.write path bytes).resolve path = some (.file place bytes) := by
    rw [resolve_write bytes hplace]
    rcases hplace with h | ⟨old, h⟩ <;> simp [h, Place.written]
  have hroot : (t.write path bytes).root = t.root := by
    unfold write
    dsimp only
    split <;> exact root_makeDirectories ..
  have hprobe : (t.write path bytes).probe path =
      .file (t.root ++ "/" ++ "/".intercalate place) bytes := by
    rw [probe, hresolve, hroot]
  rw [SourceFile.read_eq_outcome, hprobe]
  exact if_neg hpath

end Drac.FileTree
