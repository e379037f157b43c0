import CodeMend.Syntax.Document

/-!
# Trees from snippets

New content is written as text, parsed inside the smallest surroundings that give it meaning, and
lifted out.  A snippet that does not parse cleanly to exactly the wanted shape gives nothing, so
half-parsed text never gets into a tree.
-/

namespace CodeMend.Snippet

/-- Parses `opening ++ snippet ++ closing` and takes the first node that `wanted` accepts, provided
that nothing is wrong with the text and that the node is the whole snippet. -/
def lift (opening snippet closing : String) (wanted : Site → Bool) : Option Tree := do
  let document := Document.ofText 0 (opening ++ snippet ++ closing)
  guard document.errors.isEmpty
  let node ← document.root.subnodes.find? wanted
  guard (node.text == snippet)
  some node.tree

/-- Is the node right above of kind `k`? -/
def below (k : Kind) (s : Site) : Bool := s.parent?.any (·.kind == k)

/-- One statement. -/
def statement (text : String) : Option Tree :=
  lift "class __Make \x7b void __M() \x7b\n" (Text.trim text) "\n\x7d \x7d" fun s =>
    s.kind.isStatement && s.parent?.any (below .methodDeclaration)

/-- One expression. -/
def expression (text : String) : Option Tree :=
  lift "class __Make \x7b object __f = " (Text.trim text) "; \x7d" fun s =>
    s.kind.isExpression && below .equalsValueClause s

/-- Expressions that need parentheses as an operand. -/
def isLoose : Kind → Bool
  | .binaryExpression | .conditionalExpression | .assignmentExpression | .lambdaExpression => true
  | _ => false

/-- One expression, in parentheses if it needs them as an operand. -/
def operand (text : String) : Option Tree := do
  let node ← expression text
  if isLoose node.kind then expression ("(" ++ Text.trim text ++ ")") else some node

/-- A simple name as an expression. -/
def identifierName (name : String) : Option Tree :=
  (expression name).filter (·.kind == .identifierName)

/-- One member of an enumeration. -/
def enumMember (text : String) : Option Tree :=
  lift "enum __Make \x7b " (Text.trim text) " \x7d" (·.kind == .enumMemberDeclaration)

/-- One member of a type. -/
def member (text : String) : Option Tree :=
  lift "class __Make \x7b\n" (Text.trim text) "\n\x7d" fun s =>
    s.kind.isMemberDeclaration && below .classDeclaration s

/-- The forms of snippets. -/
inductive Form where
  | statement
  | expression
  /-- An expression that can be an operand. -/
  | operand
  | identifierName
  | enumMember
  | member
deriving DecidableEq

namespace Form

/-- The form for a word. -/
def ofLabel? : String → Option Form
  | "statement" => some .statement
  | "expression" => some .expression
  | "parenthesize" => some .operand
  | "identifier_name" => some .identifierName
  | "enum_member" => some .enumMember
  | "member" => some .member
  | _ => none

/-- The tree of a text in the form. -/
def read? : Form → String → Option Tree
  | .statement => Snippet.statement
  | .expression => Snippet.expression
  | .operand => Snippet.operand
  | .identifierName => Snippet.identifierName
  | .enumMember => Snippet.enumMember
  | .member => Snippet.member

end Form

/-- A token of white space. -/
def whitespace (text : String) : Tree := .token .whitespace text

/-- A line break. -/
def newline (text : String) : Tree := .token .newline text

end CodeMend.Snippet
