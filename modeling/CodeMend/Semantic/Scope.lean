import CodeMend.Semantic.Symbol

/-!
# Scopes

Local variables and parameters are found from the inside out.  A name is visible behind the
declarator that declares it, up to the end of its scope; the sections of a switch share one scope.
The search ends at the method, constructor or property around it, since beyond there are members.
-/

namespace CodeMend.Site

/-- The declarator of a name in a declaration, if it ends before `offset`. -/
def declaredBefore? (declaration : Site) (name : String) (offset : Nat) : Option Symbol :=
  (declaration.declarators.find? fun d => d.stop ≤ offset && d.identText? == some name).bind
    declaration.localSymbol?

/-- A local variable that the statements of one scope declare before `offset`. -/
def localAmong? (statements : List Site) (name : String) (offset : Nat) : Option Symbol :=
  (statements.filter fun s => s.start < offset && s.kind == .localDeclarationStatement).findSome?
    fun s => s.declaration?.bind (·.declaredBefore? name offset)

/-- A variable that a node itself declares, without a declarator. -/
def namedVariable? (s : Site) (name : String) : Option Symbol :=
  (s.identText?.filter (· == name)).map fun _ =>
    { kind := .localVariable, name := name, declaration := some s.span, typeName := s.typeName? }

/-- The first parameter of a name. -/
def parameterAmong? (parameters : List Site) (name : String) : Option Symbol :=
  (parameters.find? (·.parameterText? == some name)).bind parameterSymbol?

/-- The parameters of a lambda: those of its list, or the single one without parentheses. -/
def lambdaParameters (s : Site) : List Site :=
  match s.parameterList? with
  | some list => list.parameters
  | none => (s.child? .parameter).toList

/-- The local variable or lambda parameter that one scope declares before `offset`. -/
def variableIn? (scope : Site) (name : String) (offset : Nat) : Option Symbol :=
  match scope.kind with
  | .block => localAmong? scope.statements name offset
  | .switchSection =>
    match scope.parent? with
    | some p =>
      if p.kind == .switchStatement then localAmong? (p.sections.flatMap statements) name offset
      else none
    | none => none
  | .forStatement | .usingStatement => scope.declaration?.bind (·.declaredBefore? name offset)
  | .forEachStatement =>
    if (scope.token? .ident).any (fun t => t.stop ≤ offset) then scope.namedVariable? name else none
  | .catchClause => (scope.child? .catchDeclaration).bind (·.namedVariable? name)
  | .lambdaExpression => parameterAmong? scope.lambdaParameters name
  | _ => none

/-- The local variable or parameter of a name, seen from `offset` through the scopes around it,
innermost first. -/
def variableThrough? (name : String) (offset : Nat) : List Site → Option Symbol
  | [] => none
  | scope :: outer =>
    if scope.kind == .methodDeclaration || scope.kind == .constructorDeclaration then
      parameterAmong? ((scope.parameterList?.map parameters).getD []) name
    else if scope.kind.isTypeDeclaration || scope.kind == .propertyDeclaration then none
    else match scope.variableIn? name offset with
      | some symbol => some symbol
      | none => variableThrough? name offset outer

/-- The local variable or parameter that a name refers to where it stands. -/
def visible? (s : Site) (name : String) : Option Symbol :=
  variableThrough? name s.start s.properAncestors

end CodeMend.Site
