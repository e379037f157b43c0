/-!
# Paths

A path is a text with slashes in it.  What it means are its components: empty ones and dots do not
count, except for a dot at the start.  Two paths with the same components are the same path.
-/

namespace CodeMend

/-- One step of a path. -/
inductive Component where
  /-- The slash at the start of an absolute path. -/
  | root
  /-- A dot at the start. -/
  | here
  | up
  | name (text : String)
deriving DecidableEq

namespace Component

/-- Steps are ordered by what they are, names by their text. -/
def lt : Component → Component → Bool
  | name a, name b => a < b
  | a, b => rank a < rank b
where
  /-- The place of a sort of steps. -/
  rank : Component → Nat
    | root => 0
    | here => 1
    | up => 2
    | name _ => 3

end Component

/-- A path as it was written. -/
structure Path where
  text : String
deriving DecidableEq

namespace Path

/-- The pieces of a text between slashes; `piece` holds the current one, reversed. -/
def pieces : List Char → List Char → List String
  | piece, [] => [String.ofList piece.reverse]
  | piece, '/' :: cs => String.ofList piece.reverse :: pieces [] cs
  | piece, c :: cs => pieces (c :: piece) cs

/-- The component of a piece behind the start. -/
def component? (piece : String) : Option Component :=
  if piece == "" || piece == "." then none
  else if piece == ".." then some .up
  else some (.name piece)

/-- The components of a path. -/
def components (p : Path) : List Component :=
  let parts := pieces [] p.text.toList
  let start :=
    if p.text.startsWith "/" then [Component.root]
    else if parts.head? == some "." then [.here]
    else []
  start ++ parts.filterMap component?

/-- Are two paths the same? -/
def same (p q : Path) : Bool := p.components == q.components

/-- Does one list of components come before another? -/
def before : List Component → List Component → Bool
  | _, [] => false
  | [], _ :: _ => true
  | a :: ps, b :: qs => a.lt b || (a == b && before ps qs)

/-- Paths are ordered by their components. -/
def lt (p q : Path) : Bool := before p.components q.components

/-- The name of the file, if the path ends with one. -/
def fileName? (p : Path) : Option String :=
  match p.components.getLast? with
  | some (.name n) => some n
  | _ => none

/-- What stands behind the last dot of a file's name, if that dot is not its first character. -/
def extension? (p : Path) : Option String := do
  let name ← p.fileName?
  let behind := name.toList.reverse.takeWhile (· != '.')
  let before := name.toList.length - behind.length
  guard (2 ≤ before)
  some (String.ofList behind.reverse)

end Path

end CodeMend
