import CodeMend.Engine.Rule
import CodeMend.Trivia.Gap

/-!
# Blank lines inside braces

A blank line right behind an opening brace or right before a closing one is not needed.
-/

namespace CodeMend.Rules.BlankLine

/-- What the rule reports. -/
def descriptor : Descriptor where
  id := "RCS0063"
  title := "Remove unnecessary blank line"
  messageFormat := "Remove unnecessary blank line"
  category := "Formatting"
  severity := .info
  enabledByDefault := false

/-- The blank lines between two tokens with nothing else between them. -/
def removable? (a b : Site) : Option Span :=
  ((Gap.betweenTokens? a b).filter Gap.isFixable).bind Gap.blankLines?

/-- The blank lines inside the braces of a node; between empty braces there is one gap. -/
def blankLines (s : Site) : List Span :=
  match s.openBrace?, s.closeBrace? with
  | some opening, some closing =>
    match opening.nextSignificant? with
    | none => []
    | some first =>
      if first.same closing then (removable? opening closing).toList
      else
        (removable? opening first).toList
          ++ (closing.prevSignificant?.bind (removable? · closing)).toList
  | _, _ => []

/-- What is found at a node with braces. -/
def findings (_ : Context) (s : Site) : List Finding :=
  (blankLines s).map fun span => { descriptor := descriptor, span := span }

/-- Is the span still what there is to remove between its neighbours? -/
def isCurrent (c : Context) (span : Span) : Bool :=
  (do
    let before ← c.root.findToken? span.start .previous
    let after ← before.nextSignificant?
    removable? before after) == some span

/-- Removes the blank lines. -/
def fix (c : Context) (d : Diagnostic) : Except EditError (List CodeAction) :=
  if isCurrent c d.span then do
    let e ← c.editor.deleteSpan d.span
    return [⟨"Remove blank line", ⟨descriptor.id⟩, .fix, e.patch⟩]
  else .ok []

/-- The kinds of nodes with braces. -/
def braced : List Kind :=
  [.block, .classDeclaration, .structDeclaration, .interfaceDeclaration, .enumDeclaration,
    .namespaceDeclaration, .switchStatement]

/-- Finds blank lines inside braces. -/
def analyzer : Analyzer := .ofFindings descriptor braced findings

/-- Removes them. -/
def provider : FixProvider := ⟨[descriptor.id], fun c d => .ofEdits (fix c d)⟩

end CodeMend.Rules.BlankLine
