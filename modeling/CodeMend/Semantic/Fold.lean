import CodeMend.Semantic.Constant
import CodeMend.Syntax.Parts

/-!
# Folding expressions

The value of an expression that is built from literals, operators and names, given the values of
the names.
-/

namespace CodeMend.Site

/-- The value of an expression.  Names and member accesses are left to `resolve`. -/
def fold (resolve : Site → Option Constant) (s : Site) : Option Constant :=
  match s.kind with
  | .literalExpression => s.firstToken?.bind fun t => Constant.ofLiteral? t.kind t.text
  | .parenthesizedExpression =>
    match h : s.expression? with
    | some e =>
      have := sizeOf_tree_lt_of_expression? h
      fold resolve e
    | none => none
  | .prefixUnaryExpression =>
    match h : s.expression? with
    | some e => do
      have := sizeOf_tree_lt_of_expression? h
      let a ← fold resolve e
      Constant.unary (← s.firstKind?) a
    | none => none
  | .binaryExpression =>
    match hl : s.left?, hr : s.right? with
    | some l, some r => do
      have := sizeOf_tree_lt_of_left? hl
      have := sizeOf_tree_lt_of_right? hr
      let a ← fold resolve l
      let b ← fold resolve r
      if s.isRightShift then Constant.rightShift a b else Constant.binary (← s.operator?) a b
    | _, _ => none
  | .identifierName | .memberAccessExpression => resolve s
  | _ => none
termination_by sizeOf s.tree

end CodeMend.Site
