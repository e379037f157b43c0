import CodeMend.Syntax.Kind
import CodeMend.Text.Order
import CodeMend.Text.Span

/-!
# Tokens and syntax errors

A `Token` is a stretch of source text with its kind and place.  A `SyntaxError` is a complaint about
a span; the lexer and the parser share the type, and a document lists both by where they start.
-/

namespace CodeMend

/-- A token of the source text. -/
structure Token where
  kind : Kind
  text : String
  /-- Offset of the first byte. -/
  start : Nat
deriving DecidableEq, Inhabited

/-- The span a token covers. -/
def Token.span (t : Token) : Span := .ofLength t.start t.text.utf8ByteSize

/-- The token as a tree stores it: without its place. -/
def Token.stored (t : Token) : Kind × String := (t.kind, t.text)

/-- A complaint about a span of the source. -/
structure SyntaxError where
  message : String
  span : Span
deriving DecidableEq, Inhabited

namespace SyntaxError

/-- Errors by where they start; those that start together keep their order. -/
def sortByStart (errors : List SyntaxError) : List SyntaxError :=
  sortBy (byNumber (·.span.start)) errors

end SyntaxError

end CodeMend
