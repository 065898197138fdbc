import Drac.File.Source

/-!
# Directory trees

A directory tree in memory, with files, directories and symbolic links.  Paths are resolved from the
root of the tree, which is the working directory; nothing is known of what lies outside of it,
except that the directories above exist.

## Main definitions

* `FileTree`, `FileTree.Node` — a tree, and what it has at a place.
* `FileTree.walk`, `FileTree.resolve` — follow a path, and all links on its way.
* `FileTree.makeDirectory`, `FileTree.link`, `FileTree.write` — put something at a path.
* `FileTree.probe` — what there is at a path.
-/

namespace Drac

/-- What a tree has at a place. -/
inductive FileTree.Node
  /-- A file. -/
  | file (bytes : ByteArray)
  /-- A directory. -/
  | directory
  /-- A link to a path. -/
  | link (target : String)

/-- A directory tree: what was put at each place, the newest first.  A place is given by the names
that lead to it from the root, none of them a link. -/
structure FileTree where
  /-- The name of the root. -/
  root : String
  /-- The entries, each with its place. -/
  entries : List (List String × FileTree.Node)

namespace FileTree

/-- The names that a path is made of; empty names and dots lead nowhere. -/
def names (path : String) : List String := path.splitOn "/"

/-- What a tree has at a place. -/
def node? (t : FileTree) (place : List String) : Option Node :=
  (t.entries.find? fun e => e.1 == place).map Prod.snd

/-- Puts something at a place. -/
def put (t : FileTree) (place : List String) (n : Node) : FileTree :=
  { t with entries := (place, n) :: t.entries }

/-- Where a path leads. -/
inductive Place
  /-- To a directory of the tree. -/
  | directory (names : List String)
  /-- To a file of the tree. -/
  | file (names : List String) (bytes : ByteArray)
  /-- To a name that is not taken in a directory of the tree. -/
  | free (names : List String)
  /-- To a directory above the tree. -/
  | outside

/-- The largest number of bytes of a name. -/
def maxNameSize : Nat := 255

/-- The largest number of bytes of a path. -/
def maxPathSize : Nat := 4095

/-- The number of links that are followed on the way. -/
def maxLinks : Nat := 40

/-- Where some names lead from a directory.  `none` stands for a directory above the tree, and
`links` for the number of links that may still be followed. -/
def walk (t : FileTree) (links : Nat) (here : Option (List String)) (path : List String) :
    Option Place :=
  match path, here with
  | [], some here => some (.directory here)
  | [], none => some .outside
  | s :: path, none => if s = "" ∨ s = "." ∨ s = ".." then walk t links none path else none
  | s :: path, some here =>
    if s = "" ∨ s = "." then walk t links (some here) path
    else if s = ".." then walk t links (if here = [] then none else some here.dropLast) path
    else if maxNameSize < s.utf8ByteSize then none
    else
      match t.node? (here ++ [s]) with
      | none => if path = [] then some (.free (here ++ [s])) else none
      | some .directory => walk t links (some (here ++ [s])) path
      | some (.file bytes) => if path = [] then some (.file (here ++ [s]) bytes) else none
      | some (.link target) =>
        match links with
        | 0 => none
        | links + 1 =>
          walk t links (if target.startsWith "/" then none else some here) (names target ++ path)
termination_by (links, path.length)

/-- Where a path starts: at the root of the tree, or above it. -/
def start (path : String) : Option (List String) := if path.startsWith "/" then none else some []

/-- Where a path leads. -/
def resolve (t : FileTree) (path : String) : Option Place :=
  if path = "" ∨ maxPathSize < path.utf8ByteSize ∨ path.contains '\x00' then none
  else t.walk maxLinks (start path) (names path)

/-- The place of a name in the directory that some names lead to, provided that the name is not
taken.  A link of that name takes it, wherever it leads. -/
def free? (t : FileTree) (here : Option (List String)) (path : List String) (name : String) :
    Option (List String) :=
  match t.walk maxLinks here path with
  | some (.directory place) =>
    if name = "" ∨ name = "." ∨ name = ".." ∨ maxNameSize < name.utf8ByteSize then none
    else if (t.node? (place ++ [name])).isSome then none
    else some (place ++ [name])
  | _ => none

/-- Makes the directories that some names lead through, one after the other, as far as their names
are not taken; `done` are the names before them. -/
def makeDirectories (t : FileTree) (here : Option (List String)) (done : List String) :
    List String → FileTree
  | [] => t
  | s :: path =>
    let made := match t.free? here done s with
      | some place => t.put place .directory
      | none => t
    made.makeDirectories here (done ++ [s]) path

/-- Makes a directory at a path, and the directories on its way. -/
def makeDirectory (t : FileTree) (path : String) : FileTree :=
  t.makeDirectories (start path) [] (names path)

/-- Makes the directories on the way to the last name of a path. -/
def makeParent (t : FileTree) (path : String) : FileTree :=
  t.makeDirectories (start path) [] (names path).dropLast

/-- Puts a link at a path, unless its name is taken. -/
def link (t : FileTree) (path target : String) : FileTree :=
  let t := t.makeParent path
  match t.free? (start path) (names path).dropLast ((names path).getLastD "") with
  | some place => t.put place (.link target)
  | none => t

/-- Writes a file.  Where a path leads to a file through links, that file is replaced, and where it
leads to a name that is not taken, the file is made there. -/
def write (t : FileTree) (path : String) (bytes : ByteArray) : FileTree :=
  let t := t.makeParent path
  match t.resolve path with
  | some (.file place _) | some (.free place) => t.put place (.file bytes)
  | _ => t

/-- What there is at a path. -/
def probe (t : FileTree) (path : String) : Probe :=
  match t.resolve path with
  | none | some (.free _) => .missing
  | some (.directory _) | some .outside => .notFile
  | some (.file names bytes) => .file (t.root ++ "/" ++ "/".intercalate names) bytes

end FileTree

end Drac
