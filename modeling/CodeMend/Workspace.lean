import CodeMend.Engine.Analysis
import CodeMend.Files.Path

/-!
# Workspaces

A `Workspace` holds the open documents, one for each path.  Documents are values: to update a path
is to put another document there, and whoever holds the old one keeps it.
-/

namespace CodeMend

/-- An open document and the path under which it was put there. -/
structure OpenFile where
  path : Path
  document : Document

/-- The open documents by path, in the order of the paths. -/
structure Workspace where
  /-- Each file under the path under which its place was first opened. -/
  files : List (Path × OpenFile) := []

namespace Workspace

/-- Puts a file under a path.  A path that is open keeps its spelling. -/
def insert (f : OpenFile) : List (Path × OpenFile) → List (Path × OpenFile)
  | [] => [(f.path, f)]
  | (p, g) :: rest =>
    if p.same f.path then (p, f) :: rest
    else if f.path.lt p then (f.path, f) :: (p, g) :: rest
    else (p, g) :: insert f rest

/-- Opens a document under a path, in the place of one that is open there. -/
def put (w : Workspace) (f : OpenFile) : Workspace := ⟨insert f w.files⟩

/-- The document under a path. -/
def get? (w : Workspace) (path : Path) : Option OpenFile :=
  (w.files.find? (·.1.same path)).map Prod.snd

/-- Puts another document under a path that is open. -/
def update (w : Workspace) (f : OpenFile) : Workspace :=
  if (w.get? f.path).isSome then w.put f else w

/-- Closes a path. -/
def close (w : Workspace) (path : Path) : Workspace :=
  ⟨w.files.filter fun e => !e.1.same path⟩

/-- The open paths. -/
def paths (w : Workspace) : List Path := w.files.map Prod.fst

/-- The open documents, in the order of their paths. -/
def openFiles (w : Workspace) : List OpenFile := w.files.map Prod.snd

end Workspace

namespace Registry

/-- Analyzes every open document, in the order of their paths. -/
def analyzeAll (r : Registry) (w : Workspace) (options : Options) (cancel : Cancellation) :
    Except Failure (List (Path × Report)) :=
  w.openFiles.mapM fun f => do
    return (f.path, ← r.analyze f.document options cancel)

end Registry

end CodeMend
