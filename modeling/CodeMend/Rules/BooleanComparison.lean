import CodeMend.Engine.Rule

/-!
# Comparisons with truth values

A comparison of a `bool` with `true` or `false` is the operand itself or its negation.  A nullable
operand has three values, so its comparison stays as written.
-/

namespace CodeMend.Rules.BooleanComparison

/-- What the rule reports. -/
def descriptor : Descriptor where
  id := "RCS1049"
  title := "Simplify boolean comparison"
  messageFormat := "Simplify boolean comparison"
  category := "Simplification"
  severity := .info

/-- The property that says whether the operand is negated. -/
def invert : String := "Invert"

/-- The truth value of a literal. -/
def literal? (s : Site) : Option Bool :=
  if s.kind == .literalExpression then
    match s.firstKind? with
    | some .trueKw => some true
    | some .falseKw => some false
    | _ => none
  else none

/-- A comparison with a truth value. -/
structure Comparison where
  operand : Site
  /-- Is it the negation of the operand? -/
  negated : Bool

/-- The comparison that an expression is. -/
def match? (s : Site) : Option Comparison := do
  guard (s.kind == .binaryExpression)
  let equals ← match ← s.operator? with
    | .eqEq => some true
    | .bangEq => some false
    | _ => none
  let l ← s.left?
  let r ← s.right?
  match literal? l, literal? r with
  | none, some b => some ⟨l, equals != b⟩
  | some b, none => some ⟨r, equals != b⟩
  | _, _ => none

/-- What is found at a binary expression. -/
def findings (c : Context) (s : Site) : List Finding :=
  match match? s with
  | none => []
  | some comparison =>
    if c.model.typeOfExpression? comparison.operand == some "bool" then
      [{ descriptor := descriptor, span := s.span,
         properties := Properties.insert {} invert (if comparison.negated then "true" else "false") }]
    else []

/-- Operands that need no parentheses behind a negation. -/
def isPrimary : Kind → Bool
  | .identifierName | .literalExpression | .thisExpression | .parenthesizedExpression
  | .memberAccessExpression | .invocationExpression | .elementAccessExpression => true
  | _ => false

/-- The negation of an operand; that of a negation is what was negated. -/
def negation? (operand : Site) : Option Tree :=
  if operand.kind == .prefixUnaryExpression && operand.firstKind? == some .bang then
    operand.expression?.map Site.tree
  else
    let text := operand.text
    Snippet.expression (if isPrimary operand.kind then "!" ++ text else "!(" ++ text ++ ")")

/-- Puts the operand or its negation in the place of the comparison. -/
def fix (c : Context) (d : Diagnostic) : Except EditError (List CodeAction) :=
  let found := do
    let s ← c.nodeAt? d.span
    let comparison ← match? s
    let negated := ((d.properties.get? invert).map (· == "true")).getD comparison.negated
    let new ← if negated then negation? comparison.operand else some comparison.operand.tree
    some (s, new)
  match found with
  | none => .ok []
  | some (s, new) => do
    let e ← c.editor.replaceNode s ⟨[new], []⟩
    return [⟨"Simplify boolean comparison", ⟨descriptor.id⟩, .fix, e.patch⟩]

/-- Finds comparisons with truth values. -/
def analyzer : Analyzer := .ofFindings descriptor [.binaryExpression] findings

/-- Simplifies them. -/
def provider : FixProvider := ⟨[descriptor.id], fun c d => .ofEdits (fix c d)⟩

end CodeMend.Rules.BooleanComparison
