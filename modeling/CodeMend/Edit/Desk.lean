import CodeMend.Edit.Editor

/-!
# The desk

A `Desk` is where edits are worked on: all versions of a document so far, an editor on the latest
one and patches that were put aside.  What is pending is the merge of the patches put aside and what
the editor has collected.  A new version clears the desk.
-/

namespace CodeMend

/-- Versions of a document, oldest first, an editor on the latest and patches put aside. -/
structure Desk where
  versions : List Document
  editor : Editor
  stash : List Patch := []

namespace Desk

/-- A desk with a document of one version. -/
def ofDocument (d : Document) : Desk := ⟨[d], ⟨d, []⟩, []⟩

/-- The latest version. -/
def latest (d : Desk) : Document := d.editor.document

/-- Drops all that is pending; the editor starts anew on the latest version. -/
def clear (d : Desk) : Desk :=
  { d with editor := ⟨(d.versions.getLast?).getD d.editor.document, []⟩, stash := [] }

/-- Adds a version, which clears the desk. -/
def add (d : Desk) (v : Document) : Desk := clear { d with versions := d.versions ++ [v] }

/-- Puts a splice for a version aside. -/
def putAside (d : Desk) (v : Document) (s : Splice) : Desk :=
  { d with stash := d.stash ++ [⟨v.version, [s]⟩] }

/-- What is pending, as one patch; none if nothing is. -/
def pending (d : Desk) : Except EditError (Option Patch) :=
  Patch.merge (d.stash ++ if d.editor.isEmpty then [] else [d.editor.patch])

end Desk

end CodeMend
