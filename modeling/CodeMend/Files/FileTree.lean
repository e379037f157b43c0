import CodeMend.Files.Path

/-!
# File trees

A `FileTree` is a snapshot of the files and directories below one directory, where the tree is
mounted.  What lies outside of it is not known; a path that leaves the tree and comes back finds
nothing.
-/

namespace CodeMend

/-- Files and directories below a directory. -/
structure FileTree where
  /-- The directory as a text, for messages. -/
  mount : String
  /-- The names on the way to each file, with its content. -/
  files : List (List String × String) := []
  /-- The names on the way to each directory that was made for its own sake. -/
  directories : List (List String) := []

/-- Where a path leads. -/
inductive Place where
  | below (names : List String)
  /-- Above the tree. -/
  | outside
deriving DecidableEq

namespace FileTree

/-- The content of a file. -/
def content? (t : FileTree) (names : List String) : Option String := t.files.lookup names

/-- Is it a directory, made for its own sake or on the way to something? -/
def isDirectory (t : FileTree) (names : List String) : Bool :=
  names.isEmpty
    || t.directories.any (names.isPrefixOf ·)
    || t.files.any fun f => names.isPrefixOf f.1 && f.1 != names

/-- Is there a file or a directory? -/
def holds (t : FileTree) (names : List String) : Bool :=
  (t.content? names).isSome || t.isDirectory names

/-- One step on the way; files and what does not exist lead nowhere. -/
def step? (t : FileTree) : Place → Component → Option Place
  | .below names, .name n =>
    let next := names ++ [n]
    if t.isDirectory names && t.holds next then some (.below next) else none
  | .below names, .up =>
    if !t.isDirectory names then none
    else if names.isEmpty then some .outside
    else some (.below names.dropLast)
  | p, .here => some p
  | .outside, .up => some .outside
  | _, _ => none

/-- Where a path leads that starts in the directory of the tree. -/
def resolve? (t : FileTree) (p : Path) : Option Place :=
  p.components.foldlM t.step? (.below [])

/-- The text of the file at a path. -/
def read? (t : FileTree) (p : Path) : Option String :=
  match t.resolve? p with
  | some (.below names) => t.content? names
  | _ => none

/-- The path with the directory of the tree before it. -/
def full (t : FileTree) (p : Path) : String := t.mount ++ "/" ++ p.text

/-- The names of a path that goes nowhere but down. -/
def namesOf (p : Path) : List String :=
  p.components.filterMap fun
    | .name n => some n
    | _ => none

/-- The tree with one more file. -/
def addFile (t : FileTree) (p : Path) (content : String) : FileTree :=
  { t with files := (namesOf p, content) :: t.files }

/-- The tree with one more directory. -/
def addDirectory (t : FileTree) (p : Path) : FileTree :=
  { t with directories := namesOf p :: t.directories }

end FileTree

end CodeMend
