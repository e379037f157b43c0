import CodeMend.Config.Settings
import CodeMend.Edit.Patch
import CodeMend.Failure
import CodeMend.Syntax.Parts
import CodeMend.Syntax.Snippet
import CodeMend.Trivia.Ownership

/-!
# Indentation

Edits move code between levels of nesting and mark what they touched.  Of the lines that start
inside a marked span, those that begin a statement, a member, a label, a clause or a brace get the
indentation of their depth; a line that continues a statement moves along with the line that begins
it.  Blank lines and lines with directives stay as they are, and nothing but indentation changes.
-/

namespace CodeMend

/-- A line that is neither blank nor a directive: the white space it starts with, and its first
token behind that. -/
structure Line where
  indent : Option Site
  first : Site

namespace Line

/-- The indentation as text. -/
def indentText (l : Line) : String := (l.indent.map Site.text).getD ""

/-- Cuts tokens into lines.  `opening` says that only white space, namely `indent`, has been seen on
the current line. -/
def scan : Bool → Option Site → List Site → List Line
  | _, _, [] => []
  | false, _, t :: ts => scan (t.kind == .newline) none ts
  | true, indent, t :: ts =>
    if t.kind == .whitespace && indent.isNone then scan true (some t) ts
    else if t.kind == .newline then scan true none ts
    else if t.kind == .endOfFile || t.kind.isDirective then scan false none ts
    else ⟨indent, t⟩ :: scan false none ts

/-- The lines of a tree that are neither blank nor directives. -/
def all (root : Site) : List Line := scan true none root.subtokens

end Line

namespace Indent

/-- Nodes that begin on a line of their own: statements, members, labels and clauses. -/
def isAnchor (k : Kind) : Bool :=
  k.isStatement || k.isMemberDeclaration ||
    match k with
    | .usingDirective | .caseSwitchLabel | .defaultSwitchLabel | .elseClause | .catchClause
    | .finallyClause | .accessorDeclaration => true
    | _ => false

/-- Nodes whose contents stand between braces. -/
def hasBracedBody (k : Kind) : Bool :=
  k.isTypeDeclaration ||
    match k with
    | .block | .switchStatement | .namespaceDeclaration | .accessorList
    | .initializerExpression => true
    | _ => false

/-- Nodes that have another statement as their body. -/
def isEmbedding : Kind → Bool
  | .ifStatement | .elseClause | .whileStatement | .doStatement | .forStatement
  | .forEachStatement | .usingStatement => true
  | _ => false

/-- The innermost node above that begins on a line of its own. -/
def anchor? (token : Site) : Option Site := token.properAncestors.find? (isAnchor ·.kind)

/-- Is the token the first significant one of the node? -/
def begins (token node : Site) : Bool := node.firstSignificant?.any (·.same token)

/-- Does the token begin its anchor, or is it a brace? -/
def isStructural (token : Site) (anchor : Option Site) : Bool :=
  token.kind == .lBrace || token.kind == .rBrace || anchor.any (begins token)

/-- Does the token lie between the braces among a node's children? -/
def insideBraces (node token : Site) : Bool :=
  match node.openBrace? with
  | none => false
  | some opening =>
    if token.start < opening.stop then false
    else match node.closeBrace? with
      | some closing => if opening.start < closing.start then token.start < closing.start else true
      | none => true

/-- Is the node a label of a switch section? -/
def isLabel (s : Site) : Bool := s.kind == .caseSwitchLabel || s.kind == .defaultSwitchLabel

/-- By how many levels one node indents a token below it. -/
def levels (token node : Site) : Nat :=
  let braces := if hasBracedBody node.kind && insideBraces node token then 1 else 0
  let inLabel := token.properAncestors.any fun n => isLabel n && n.parent?.any (·.same node)
  let switch := if node.kind == .switchSection && !inLabel then 1 else 0
  let embedded := node.parent?.any fun p =>
    isEmbedding p.kind && !(node.kind == .ifStatement && p.kind == .elseClause)
  let body := if node.kind.isStatement && node.kind != .block && embedded then 1 else 0
  braces + switch + body

/-- How many levels deep the line that starts with the token is. -/
def depth (token : Site) : Nat := (token.properAncestors.map (levels token)).foldr (· + ·) 0

/-- Columns taken by white space: a tab takes those of a level. -/
def width (level : UInt64) (indent : String) : UInt64 :=
  (indent.toList.map fun c => if c == '\t' then level else 1).foldr (· + ·) 0

/-- The tabs and the spaces that fill the given columns. -/
def fill (f : FormatterSettings) (columns : UInt64) : UInt64 × UInt64 :=
  match f.style with
  | .spaces => (0, columns)
  | .tabs => (columns / f.level, columns % f.level)

/-- White space of the given columns. -/
def render (f : FormatterSettings) (columns : UInt64) : String :=
  let (tabs, spaces) := fill f columns
  String.ofList (List.replicate tabs.toNat '\t' ++ List.replicate spaces.toNat ' ')

/-- The bytes of that white space, counted without writing it. -/
def size (f : FormatterSettings) (columns : UInt64) : Nat :=
  let (tabs, spaces) := fill f columns
  tabs.toNat + spaces.toNat

/-- By how much the first line of each anchor has moved, by where the anchor starts; the latest
first. -/
abbrev Moves := List (Nat × Int64)

/-- Columns moved by so many; never before the first column. -/
def shift (columns : UInt64) (move : Int64) : UInt64 :=
  let moved := columns.toInt64 + move
  if moved < 0 then 0 else moved.toUInt64

/-- The columns a line should start at, and the moves known after it; `none` leaves the line.
Columns are machine words, and arithmetic on them wraps around. -/
def target? (f : FormatterSettings) (moves : Moves) (l : Line) : Option (UInt64 × Moves) :=
  let anchor := anchor? l.first
  let current := width f.level l.indentText
  if l.first.kind.isComment then
    l.first.nextSignificant?.map fun next =>
      (.ofNat (depth next + if next.kind == .rBrace then 1 else 0) * f.level, moves)
  else if isStructural l.first anchor then
    let columns := .ofNat (depth l.first) * f.level
    match anchor with
    | some a =>
      if begins l.first a then some (columns, (a.start, columns.toInt64 - current.toInt64) :: moves)
      else some (columns, moves)
    | none => some (columns, moves)
  else some (shift current ((anchor.bind fun a => moves.lookup a.start).getD 0), moves)

/-- The change that gives a line its indentation, if it has another. -/
def splice? (l : Line) (indent : String) : Option Splice :=
  if indent == l.indentText then none
  else match l.indent with
    | some old =>
      if indent.isEmpty then some (.delete old.span)
      else some ⟨old.span, none, ⟨[Snippet.whitespace indent], []⟩⟩
    | none => some (.insert l.first.start ⟨[Snippet.whitespace indent], []⟩)

/-- Does the line start inside one of the spans? -/
def inSpans (spans : List Span) (l : Line) : Bool := spans.any (·.contains l.first.start)

/-- The lines that get new white space, with the columns for each, in their order. -/
def targets (f : FormatterSettings) (spans : List Span) : Moves → List Line → List (Line × UInt64)
  | _, [] => []
  | moves, l :: ls =>
    if inSpans spans l then
      match target? f moves l with
      | none => targets f spans moves ls
      | some (columns, moves) => (l, columns) :: targets f spans moves ls
    else targets f spans moves ls

/-- The changes for lines in their order. -/
def splices (f : FormatterSettings) (spans : List Span) (moves : Moves) (ls : List Line) :
    List Splice :=
  (targets f spans moves ls).filterMap fun t => splice? t.1 (render f t.2)

/-- The most bytes that a text can have in memory. -/
def maxBytes : Nat := 9223372036854775807

/-- The changes that indent the lines which start inside the spans.  Each line is a point where the
run can be cancelled; it breaks down at white space that memory cannot hold. -/
def patch (f : FormatterSettings) (d : Document) (spans : List Span) (cancel : Cancellation) :
    Except Failure Patch := do
  let lines := if spans.isEmpty then [] else Line.all d.root
  if !lines.isEmpty then cancel.check
  if (targets f spans [] lines).any fun t => maxBytes < size f t.2 then throw .overflow
  return ⟨d.version, splices f spans [] lines⟩

/-- Applies changes of indentation.  White space that is longer than offsets reach has no place in a
tree, and the run breaks down. -/
def settle (p : Patch) (d : Document) (stamp : Nat) : Except Failure Outcome :=
  if p.splices.any fun s => Patch.maxOffset < s.replacement.length then .error .overflow
  else Failure.ofEdit (p.apply d stamp)

/-- Indents the lines which start inside the spans.  If nothing changes, the result is the document
itself, else a version with the given stamp. -/
def apply (f : FormatterSettings) (d : Document) (spans : List Span) (cancel : Cancellation)
    (stamp : Nat) : Except Failure Document := do
  let p ← patch f d spans cancel
  if p.isEmpty then return d
  return (← settle p d stamp).document

end Indent

end CodeMend
