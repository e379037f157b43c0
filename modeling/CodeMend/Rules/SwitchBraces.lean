import CodeMend.Engine.Rule
import CodeMend.Trivia.Gap

/-!
# Braces in a switch section

A section whose only statement is a block can do without the braces if that changes nothing but the
layout.  The block must not declare a `using` variable, which would live on to the end of the
switch; none of its local names may be declared in another section, since the sections share one
scope; and the braces must not carry comments or directives.
-/

namespace CodeMend.Rules.SwitchBraces

/-- What the rule reports. -/
def descriptor : Descriptor where
  id := "RCS1031"
  title := "Remove unnecessary braces in switch section"
  messageFormat := "Remove unnecessary braces in switch section"
  category := "Redundancy"
  severity := .hidden

/-- The local name that a node declares. -/
def localName? (s : Site) : Option String :=
  match s.kind with
  | .variableDeclarator | .forEachStatement | .catchDeclaration => s.identText?
  | .parameter => s.parameterName?.map Site.text
  | _ => none

/-- The local names that are declared anywhere below a node. -/
def localNames (s : Site) : List String := s.subnodes.filterMap localName?

/-- Does the block have statements, and nothing but white space inside its braces around them? -/
def hasPlainBraces (block : Site) : Bool :=
  let isPlain (a b : Option Site) : Bool :=
    match a, b with
    | some a, some b => (Gap.betweenTokens? a b).any Gap.isFixable
    | _, _ => false
  isPlain block.openBrace? (block.statements.head?.bind Site.firstSignificant?)
    && isPlain (block.statements.getLast?.bind Site.lastSignificant?) block.closeBrace?

/-- Does the block declare a variable that is disposed of at the end of its scope? -/
def declaresUsing (block : Site) : Bool :=
  block.statements.any fun s => s.kind == .localDeclarationStatement && s.hasToken .usingKw

/-- Does another section declare a local name of the block? -/
def collides (sect block : Site) : Bool :=
  match sect.parent? with
  | none => true
  | some switch =>
    let others := (switch.sections.filter fun s => !s.same sect).flatMap localNames
    (localNames block).any others.contains

/-- The block that a section can do without. -/
def redundantBlock? (sect : Site) : Option Site := do
  let block ← sect.soleBlock?
  guard (hasPlainBraces block && !declaresUsing block && !collides sect block)
  some block

/-- What is found at a section. -/
def findings (_ : Context) (sect : Site) : List Finding :=
  (redundantBlock? sect).toList.map fun block => { descriptor := descriptor, span := block.span }

/-- The gap in which a blank line keeps the next section off the unwrapped statements. -/
def gapBehind? (block : Site) : Option Gap := do
  let next ← (← block.parent?).nextNode?
  guard (next.kind == .switchSection)
  (Gap.between? block next).filter Gap.isFixable

/-- Puts the statements of the block in its place. -/
def unwrap (e : Editor) (block first last : Site) : Except EditError Editor := do
  let inner : Span := ⟨first.start, last.stop⟩
  let e ← e.replaceByParts block (block.children.filter fun t => inner.covers t.span)
  match gapBehind? block with
  | none => return e
  | some gap =>
    match gap.blankLineInsertion? with
    | none => return e
    | some offset => e.insertAt offset ⟨[Snippet.newline gap.lineBreakText], []⟩

/-- Removes the braces. -/
def fix (c : Context) (d : Diagnostic) : Except EditError (List CodeAction) :=
  match (c.nodeAt? d.span).filter (·.kind == .block) with
  | none => .ok []
  | some block =>
    match block.statements.head?, block.statements.getLast? with
    | some first, some last => do
      let e ← unwrap c.editor block first last
      return [⟨"Remove braces", ⟨descriptor.id⟩, .fix, e.patch⟩]
    | _, _ => .ok []

/-- Finds braces that can go. -/
def analyzer : Analyzer := .ofFindings descriptor [.switchSection] findings

/-- Removes them. -/
def provider : FixProvider := ⟨[descriptor.id], fun c d => .ofEdits (fix c d)⟩

end CodeMend.Rules.SwitchBraces
