import CodeMend.Syntax.Lexer
import CodeMend.Syntax.Parse.Grammar
import CodeMend.Syntax.Site

/-!
# Documents

A `Document` is one version of a source file: its tree, what is wrong with it and two stamps.  Each
version has a `version` of its own, by which an edit or a diagnostic knows what it was made for.
The `origin` marks the tree itself: a version that changes nothing shares the tree of the version it
came from, and the sites of that tree belong to both.
-/

namespace CodeMend

/-- A source text as a tree, with what is wrong with it. -/
def parse (text : String) : Tree × List SyntaxError :=
  let (tokens, lexErrors) := lex text
  let step := Parse.source tokens
  (step.built.headD (.node .compilationUnit []), SyntaxError.sortByStart (lexErrors ++ step.errors))

/-- One version of a source file. -/
structure Document where
  tree : Tree
  errors : List SyntaxError
  /-- The stamp of this version. -/
  version : Nat
  /-- The stamp of the tree, shared with versions that did not change it. -/
  origin : Nat
deriving Inhabited

namespace Document

/-- Parses a text as the version with the given stamp. -/
def ofText (version : Nat) (text : String) : Document :=
  let (tree, errors) := parse text
  ⟨tree, errors, version, version⟩

/-- The site of the whole tree. -/
def root (d : Document) : Site := .top d.origin d.tree

/-- The source text. -/
def text (d : Document) : String := d.tree.text

/-- The number of bytes of the text. -/
def length (d : Document) : Nat := d.tree.width

/-- The same text parsed anew, as the version with the given stamp. -/
def reparse (version : Nat) (d : Document) : Document := ofText version d.text

/-- Does the site lie in this document's tree? -/
def owns (d : Document) (s : Site) : Bool := s.origin == d.origin

end Document

end CodeMend
