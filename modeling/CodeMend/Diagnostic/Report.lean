import CodeMend.Diagnostic.Descriptor
import CodeMend.Text.LineIndex
import CodeMend.Text.Order
import CodeMend.Text.Span

/-!
# Diagnostics

A `Diagnostic` is one finding of a rule at a span of one version of a document.
-/

namespace CodeMend

/-- One finding. -/
structure Diagnostic where
  id : String
  severity : Severity
  message : String
  /-- The version of the document in which it was found. -/
  version : Nat
  span : Span
  position : Position
  properties : Properties
deriving DecidableEq

namespace Diagnostic

/-- The finding on one line: position, severity, id and message. -/
def render (d : Diagnostic) : String :=
  toString d.position.line ++ ":" ++ toString d.position.column ++ ": " ++ d.severity.label ++ " "
    ++ d.id ++ ": " ++ d.message

/-- Does a finding come before another, or at the same place under the same id?  Findings are
listed by start, then end, then id. -/
def le (a b : Diagnostic) : Bool :=
  a.span.start < b.span.start ||
    (a.span.start == b.span.start &&
      (a.span.stop < b.span.stop || (a.span.stop == b.span.stop && a.id ≤ b.id)))

/-- Findings in their order; those that tie stay as they come. -/
def sort (ds : List Diagnostic) : List Diagnostic := sortBy le ds

end Diagnostic

end CodeMend
