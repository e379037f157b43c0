import CodeMend.Syntax.Dump

/-!
# Why an edit is refused

An edit that is refused changes nothing: the document it was meant for stays as it is.
-/

namespace CodeMend

/-- Why an edit is refused. -/
inductive EditError where
  /-- The target lies in another version than the one being edited.  The other version is known if a
  whole patch is applied to the wrong version, not if a single foreign node is handed in. -/
  | staleTree (expected : Nat) (found : Option Nat)
  /-- One half of a pair of directives would lose the other. -/
  | unbalancedDirectives (span : Span) (count : Nat)
  /-- Comments around the node would be lost. -/
  | commentTrivia (span : Span) (count : Nat)
  /-- Two splices of one patch touch the same text. -/
  | overlappingEdits (first second : Span)
  /-- An end of the span lies inside a token, or behind the text. -/
  | misaligned (span : Span)
  /-- The new content cannot stand where it should. -/
  | invalidReplacement (message : String)
deriving DecidableEq

namespace EditError

/-- The word for each refusal. -/
def label : EditError → String
  | staleTree .. => "StaleTree"
  | unbalancedDirectives .. => "UnbalancedDirectives"
  | commentTrivia .. => "CommentTrivia"
  | overlappingEdits .. => "OverlappingEdits"
  | misaligned .. => "Misaligned"
  | invalidReplacement .. => "InvalidReplacement"

/-- The wording of each refusal. -/
def message : EditError → String
  | staleTree expected _ =>
    "edit targets a stale or foreign tree, the current tree is tree#" ++ toString expected
  | unbalancedDirectives span count =>
    "edit at " ++ span.show ++ " would orphan " ++ toString count ++ " preprocessor directive(s)"
  | commentTrivia span count =>
    "edit at " ++ span.show ++ " would delete " ++ toString count ++ " comment(s)"
  | overlappingEdits first second =>
    "overlapping edits at " ++ first.show ++ " and " ++ second.show
  | misaligned span => "edit range " ++ span.show ++ " does not align with token boundaries"
  | invalidReplacement message => "invalid replacement: " ++ message

end EditError

end CodeMend
