import CodeMend.Edit.Patch
import CodeMend.Syntax.Snippet
import CodeMend.Trivia.Directive

/-!
# The editor

An `Editor` collects splices against one version of a document.  Every operation checks that its
node lies in that version and that no directive would lose its partner; removals also refuse to drop
comments around the node.  A refused operation leaves the editor as it was.
-/

namespace CodeMend

/-- What happens to the trivia around a removed node. -/
inductive RemovalPolicy where
  | keepNoTrivia
  | keepLeadingTrivia
  | keepTrailingTrivia
  | keepExteriorTrivia
  /-- All goes, but directives whose partner is elsewhere are written back, each on its line. -/
  | keepUnbalancedDirectives
deriving DecidableEq

namespace RemovalPolicy

/-- The word for a policy. -/
def label : RemovalPolicy → String
  | .keepNoTrivia => "KeepNoTrivia"
  | .keepLeadingTrivia => "KeepLeadingTrivia"
  | .keepTrailingTrivia => "KeepTrailingTrivia"
  | .keepExteriorTrivia => "KeepExteriorTrivia"
  | .keepUnbalancedDirectives => "KeepUnbalancedDirectives"

/-- The policy of a word. -/
def ofLabel? (word : String) : Option RemovalPolicy :=
  [keepNoTrivia, keepLeadingTrivia, keepTrailingTrivia, keepExteriorTrivia,
    keepUnbalancedDirectives].find? (·.label == word)

end RemovalPolicy

/-- On which side of its anchor something is inserted. -/
inductive InsertPosition where
  | before
  | after
deriving DecidableEq

/-- Splices collected against one version of a document. -/
structure Editor where
  document : Document
  splices : List Splice := []

namespace Editor

/-- What the editor has collected, as a patch. -/
def patch (e : Editor) : Patch := ⟨e.document.version, e.splices⟩

/-- Has nothing been collected? -/
def isEmpty (e : Editor) : Bool := e.splices.isEmpty

/-- Adds a splice. -/
def push (e : Editor) (s : Splice) : Editor := { e with splices := e.splices ++ [s] }

/-! ## Checks -/

/-- The site lies in the editor's document. -/
def checkOwned (e : Editor) (s : Site) : Except EditError Unit :=
  if e.document.owns s then .ok () else .error (.staleTree e.document.version none)

/-- Nothing in the list of directives to lose: they would be orphans of an edit at `span`. -/
def checkOrphans (span : Span) (orphans : List Site) : Except EditError Unit :=
  if orphans.isEmpty then .ok () else .error (.unbalancedDirectives span orphans.length)

/-- No directive in the full span of a node has its partner outside. -/
def checkNodeBalance (s : Site) : Except EditError Unit := checkOrphans s.fullSpan s.unbalanced

/-- No directive in a span has its partner outside. -/
def checkSpanBalance (e : Editor) (span : Span) : Except EditError Unit :=
  checkOrphans span (e.document.root.unbalancedIn span)

/-- The comments in `removed` that lie outside `inner`. -/
def exteriorComments (e : Editor) (removed inner : Span) : List Site :=
  (e.document.root.tokensIn removed).filter fun t =>
    t.kind.isComment && removed.covers t.span && !inner.covers t.span

/-- No comment outside a node's own span is removed. -/
def checkExteriorComments (e : Editor) (removed inner : Span) : Except EditError Unit :=
  let comments := e.exteriorComments removed inner
  if comments.isEmpty then .ok () else .error (.commentTrivia removed comments.length)

/-! ## Replacing -/

/-- Replaces the span of a node; the trivia around it stays. -/
def replaceNode (e : Editor) (node : Site) (r : Replacement) : Except EditError Editor := do
  e.checkOwned node
  checkNodeBalance node
  return e.push ⟨node.span, some node.kind, r⟩

/-- Replaces a node by nodes and tokens of the same document, to be indented anew. -/
def replaceByParts (e : Editor) (node : Site) (parts : List Site) : Except EditError Editor := do
  parts.forM e.checkOwned
  e.replaceNode node (Replacement.formatted ⟨parts.map Site.tree, []⟩)

/-- Replaces a token, which must not be a directive. -/
def replaceToken (e : Editor) (token : Site) (new : Tree) : Except EditError Editor := do
  e.checkOwned token
  if token.kind.isDirective then throw (.unbalancedDirectives token.span 1)
  return e.push ⟨token.span, none, ⟨[new], []⟩⟩

/-! ## Removing -/

/-- The line break of the document: its first one, if there is any. -/
def lineBreak (e : Editor) : String :=
  ((e.document.root.subtokens.find? (·.kind == .newline)).map Site.text).getD "\n"

/-- The directives of a span whose partner lies outside, each on a line of its own. -/
def keptDirectives (e : Editor) (span : Span) : Replacement :=
  ⟨(e.document.root.unbalancedIn span).flatMap fun d => [d.tree, Snippet.newline e.lineBreak], []⟩

/-- What is removed along with a node. -/
def removedSpan (policy : RemovalPolicy) (inner full : Span) : Span :=
  match policy with
  | .keepNoTrivia => full
  | .keepLeadingTrivia => ⟨inner.start, full.stop⟩
  | .keepTrailingTrivia => ⟨full.start, inner.stop⟩
  | .keepExteriorTrivia => inner
  | .keepUnbalancedDirectives => full

/-- Removes a node, and the trivia around it as the policy says. -/
def removeNode (e : Editor) (node : Site) (policy : RemovalPolicy) : Except EditError Editor := do
  e.checkOwned node
  let removed := removedSpan policy node.span node.fullSpan
  if policy == .keepUnbalancedDirectives then
    e.checkSpanBalance node.span
    e.checkExteriorComments removed node.span
    return e.push ⟨removed, some node.kind, e.keptDirectives removed⟩
  else
    checkNodeBalance node
    e.checkExteriorComments removed node.span
    return e.push ⟨removed, some node.kind, .empty⟩

/-- Does a node come first behind an opening brace? -/
def followsOpenBrace (node : Site) : Bool :=
  (node.firstSignificant?.bind Site.prevSignificant?).any (·.kind == .lBrace)

/-- Where the blank lines behind a node end: behind the last line break of the white space that
follows the trivia its last token owns. -/
def blankLinesEnd? (node : Site) : Option Nat := do
  let last ← node.lastSignificant?
  let trailing ← last.trailingTrivia.getLast?
  let blanks := trailing.tokensAfter.takeWhile (fun t => t.kind == .newline || t.kind == .whitespace)
  let newline ← (blanks.filter (·.kind == .newline)).getLast?
  some newline.stop

/-- Removes a member of a type, along with the blank lines that would be left right behind the
opening brace. -/
def removeMember (e : Editor) (member : Site) : Except EditError Editor := do
  e.checkOwned member
  checkNodeBalance member
  let full := member.fullSpan
  let stop := if followsOpenBrace member then (blankLinesEnd? member).getD full.stop else full.stop
  let removed : Span := ⟨full.start, stop⟩
  e.checkExteriorComments removed member.span
  return e.push ⟨removed, some member.kind, .empty⟩

/-- Deletes a span that holds nothing but trivia. -/
def deleteSpan (e : Editor) (span : Span) : Except EditError Editor := do
  let root := e.document.root
  if !root.span.covers span then throw (.misaligned span)
  let touched := (root.tokensIn span).filter fun t =>
    (t.span.inter? span).any (fun common => !common.isEmpty)
  if touched.any Site.isSignificant then
    throw (.invalidReplacement ("range " ++ span.show ++ " is not trivia"))
  e.checkSpanBalance span
  return e.push (.delete span)

/-! ## Inserting -/

/-- Inserts right before a node, on its line. -/
def insertBefore (e : Editor) (anchor : Site) (r : Replacement) : Except EditError Editor := do
  e.checkOwned anchor
  return e.push ⟨anchor.span, some anchor.kind, { r with elements := r.elements ++ [anchor.tree] }⟩

/-- Inserts right behind a node, on its line. -/
def insertAfter (e : Editor) (anchor : Site) (r : Replacement) : Except EditError Editor := do
  e.checkOwned anchor
  return e.push ⟨anchor.span, some anchor.kind,
    ⟨anchor.tree :: r.elements, r.annotations.map (·.shift anchor.span.length)⟩⟩

/-- Inserts between two tokens. -/
def insertAt (e : Editor) (offset : Nat) (r : Replacement) : Except EditError Editor :=
  if e.document.length < offset then .error (.misaligned (.point offset))
  else .ok (e.push (.insert offset r))

/-- The token between an inserted statement and its neighbour. -/
def separator (text : String) : Tree :=
  if text.toList.contains '\n' then Snippet.newline text else Snippet.whitespace text

/-- Indentation, if there is any. -/
def indentation (indent : String) : List (Tree × Bool) :=
  if indent.isEmpty then [] else [(Snippet.whitespace indent, false)]

/-- Inserts statements next to an anchor, to be indented anew.  If the anchor comes first on its line
they get lines of their own with its indentation, else they join its line. -/
def insertStatements (e : Editor) (anchor : Site) (statements : List Tree)
    (position : InsertPosition) : Except EditError Editor := do
  e.checkOwned anchor
  if statements.isEmpty then return e
  match anchor.firstSignificant?, anchor.lastSignificant? with
  | some first, some last =>
    let (between, indent) := match first.lineIndent? with
      | some indent => (e.lineBreak, indent)
      | none => (" ", "")
    let lead := indentation indent
    let gap := (separator between, false)
    match position with
    | .before =>
      let pieces := statements.flatMap fun s => (s, true) :: gap :: lead
      return e.push (.insert anchor.start (.ofPieces pieces))
    | .after =>
      let endsLine := (last.trailingTrivia.getLast?).any (·.kind == .newline)
      if between != " " && endsLine then
        let pieces := statements.flatMap fun s => lead ++ [(s, true), gap]
        return e.push (.insert last.trailingSpan.stop (.ofPieces pieces))
      else
        let pieces := statements.flatMap fun s => gap :: lead ++ [(s, true)]
        e.insertAfter anchor (.ofPieces pieces)
  | _, _ => throw (.invalidReplacement "anchor has no tokens")

end Editor

/-! ## Single edits -/

namespace Document

/-- Replaces a node by a tree, to be indented anew. -/
def replaceNode (d : Document) (node : Site) (new : Tree) (stamp : Nat) :
    Except EditError Outcome := do
  (← Editor.replaceNode ⟨d, []⟩ node (Replacement.formatted ⟨[new], []⟩)).patch.apply d stamp

/-- Removes a node. -/
def removeNode (d : Document) (node : Site) (policy : RemovalPolicy) (stamp : Nat) :
    Except EditError Outcome := do
  (← Editor.removeNode ⟨d, []⟩ node policy).patch.apply d stamp

/-- Inserts statements next to an anchor. -/
def insertStatements (d : Document) (anchor : Site) (statements : List Tree)
    (position : InsertPosition) (stamp : Nat) : Except EditError Outcome := do
  (← Editor.insertStatements ⟨d, []⟩ anchor statements position).patch.apply d stamp

end Document

end CodeMend
