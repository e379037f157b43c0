import CodeMend.Engine.Rule

/-!
# Null checks of arguments

An `if` that throws `ArgumentNullException` for a parameter that is null does what the static method
`ThrowIfNull` does, provided that the parameter's type is a reference and the library has that
method.
-/

namespace CodeMend.Rules.NullCheck

/-- What the rule reports. -/
def descriptor : Descriptor where
  id := "RCS1255"
  title := "Simplify argument null check"
  messageFormat := "Use 'ArgumentNullException.ThrowIfNull' to check '\x7b0\x7d'"
  category := "Simplification"
  severity := .info

/-- The exception that is thrown. -/
def exception : String := "ArgumentNullException"

/-- The method that throws it. -/
def helper : String := "ThrowIfNull"

/-- The parts of a null check. -/
structure Check where
  parameter : String
  /-- The type of the exception as written. -/
  exceptionType : String

/-- Is the node the literal `null`? -/
def isNull (s : Site) : Bool := s.kind == .literalExpression && s.firstKind? == some .nullKw

/-- The text of a simple name. -/
def nameText? (s : Site) : Option String := if s.kind == .identifierName then s.identText? else none

/-- The expression that is compared with `null` for equality. -/
def comparedWithNull? (condition : Site) : Option Site := do
  guard (condition.kind == .binaryExpression && condition.operator? == some .eqEq)
  let l ← condition.left?
  let r ← condition.right?
  match isNull l, isNull r with
  | false, true => some l
  | true, false => some r
  | _, _ => none

/-- The object that is thrown, by the statement itself or by the only statement of a block. -/
def thrown? (statement : Site) : Option Site := do
  let body ←
    if statement.kind == .block then
      match statement.statements with
      | [s] => some s
      | _ => none
    else some statement
  guard (body.kind == .throwStatement)
  body.expression?.filter (·.kind == .objectCreationExpression)

/-- Does the expression give the name of the parameter, by `nameof` or as a string? -/
def names (parameter : String) (s : Site) : Bool :=
  if s.kind == .invocationExpression then
    match s.argumentList?.map Site.arguments with
    | some [a] =>
      s.left?.bind nameText? == some "nameof"
        && a.expression?.bind nameText? == some parameter
    | _ => false
  else
    s.kind == .literalExpression
      && s.firstToken?.any fun t =>
        t.kind == .stringLiteral && t.text == "\"" ++ parameter ++ "\""

/-- The type of the exception, if an object of it is created for the parameter. -/
def exceptionType? (creation : Site) (parameter : String) : Option Site := do
  let type ← creation.type?
  guard (type.simpleName? == some exception)
  guard (creation.child? .initializerExpression).isNone
  match creation.argumentList?.map Site.arguments with
  | some [a] =>
    guard a.argumentName?.isNone
    guard (a.expression?.any (names parameter))
    some type
  | _ => none

/-- The null check that a statement is. -/
def match? (m : Model) (s : Site) : Option Check := do
  guard (s.kind == .ifStatement && (s.child? .elseClause).isNone)
  guard !(s.subtokens.any fun t => t.kind.isComment || t.kind.isDirective)
  let checked ← comparedWithNull? (← s.expression?)
  let parameter ← nameText? checked
  let type ← exceptionType? (← thrown? (← s.statement?)) parameter
  let symbol ← m.symbol? checked
  guard (symbol.kind == .parameter)
  guard (m.isReferenceType? (← symbol.typeName) == some true)
  guard ((m.symbol? type).isSome && m.hasStaticMethod type.typeText helper 1)
  some ⟨parameter, type.typeText⟩

/-- What is found at an `if`. -/
def findings (c : Context) (s : Site) : List Finding :=
  match match? c.model s, s.token? .ifKw with
  | some check, some keyword =>
    [{ descriptor := descriptor, span := keyword.span, arguments := [check.parameter] }]
  | _, _ => []

/-- Calls the method. -/
def fix (c : Context) (d : Diagnostic) : Except EditError (List CodeAction) :=
  match (c.nodeAt? d.span).bind (fun n => n.ancestors.find? (·.kind == .ifStatement)) with
  | none => .ok []
  | some statement =>
    let call := (match? c.model statement).bind fun check =>
      Snippet.statement (check.exceptionType ++ "." ++ helper ++ "(" ++ check.parameter ++ ");")
    match call with
    | none => .ok []
    | some call => do
      let e ← c.editor.replaceNode statement (Replacement.formatted ⟨[call], []⟩)
      return [⟨"Call '" ++ exception ++ "." ++ helper ++ "'", ⟨descriptor.id⟩, .fix, e.patch⟩]

/-- Finds null checks. -/
def analyzer : Analyzer := .ofFindings descriptor [.ifStatement] findings

/-- Simplifies them. -/
def provider : FixProvider := ⟨[descriptor.id], fun c d => .ofEdits (fix c d)⟩

end CodeMend.Rules.NullCheck
