import CodeMend.Syntax.Site
import CodeMend.Text.Quoted

/-!
# Dumps of trees

One line for each node and token in preorder: two blanks for each level, the kind, the span and, for
a token, its text in quotes.
-/

namespace CodeMend

/-- A span as `start..stop`. -/
def Span.show (s : Span) : String := toString s.start ++ ".." ++ toString s.stop

namespace Site

/-- How many nodes of the subtree of `top` stand above. -/
def depthBelow (top : Site) (s : Site) : Nat := s.above.length - top.above.length

/-- One line of a dump. -/
def dumpLine (top s : Site) : String :=
  String.ofList (List.replicate (2 * top.depthBelow s) ' ') ++ s.kind.label ++ "@" ++ s.span.show
    ++ (if s.isToken then " " ++ Text.shown s.text else "") ++ "\n"

/-- The dump of a subtree. -/
def dump (s : Site) : String := String.join (s.subtree.map (dumpLine s))

end Site

end CodeMend
