import CodeMend.Semantic.Symbol

/-!
# Declared types

The types that a document declares, each with its members.  Of members with one name the first one
counts.
-/

namespace CodeMend

/-- A member of a declared type. -/
structure Member where
  symbol : Symbol
  /-- The kind of the declaring node. -/
  kind : Kind
  /-- The number of parameters of a method that has a list of them. -/
  arity : Option Nat := none

/-- A type that the document declares. -/
structure DeclaredType where
  /-- The kind of the declaring node. -/
  kind : Kind
  symbol : Symbol
  members : List Member

namespace DeclaredType

/-- The member of a name. -/
def member? (t : DeclaredType) (name : String) : Option Member :=
  t.members.find? (·.symbol.name == name)

/-- Is it a class or an interface? -/
def isReference (t : DeclaredType) : Bool :=
  t.kind == .classDeclaration || t.kind == .interfaceDeclaration

end DeclaredType

/-- The first member of each name. -/
def Member.firstOfEach : List Member → List Member
  | [] => []
  | m :: ms => m :: (Member.firstOfEach ms).filter (·.symbol.name != m.symbol.name)

namespace Site

/-- What a member of an enumeration declares. -/
def enumMember? (container : String) (s : Site) : Option Member :=
  s.identText?.map fun name =>
    { kind := s.kind
      symbol :=
        { kind := .enumMember, name := name, declaration := some s.span,
          container := some container, typeName := some container,
          isStatic := true, isConst := true } }

/-- What a declarator of a field declares. -/
def fieldMember? (container : String) (field declaration declarator : Site) : Option Member :=
  declarator.identText?.map fun name =>
    { kind := declarator.kind
      symbol :=
        { kind := .field, name := name, declaration := some declarator.span,
          container := some container, typeName := declaration.typeName?,
          isStatic := field.isStaticField, isConst := field.isConstField } }

/-- What a method or a property declares. -/
def namedMember? (container : String) (kind : SymbolKind) (s : Site) : Option Member :=
  s.identText?.map fun name =>
    { kind := s.kind
      symbol :=
        { kind := kind, name := name, declaration := some s.span, container := some container,
          typeName := s.typeName?, isStatic := s.hasModifier .staticKw }
      arity := if kind == .method then s.parameterList?.map (·.parameters.length) else none }

/-- What a member declaration declares.  Constructors, operators and nested types are no members. -/
def declaredMembers (container : String) (s : Site) : List Member :=
  match s.kind with
  | .fieldDeclaration =>
    match s.declaration? with
    | some d => d.declarators.filterMap (fieldMember? container s d)
    | none => []
  | .methodDeclaration => (namedMember? container .method s).toList
  | .propertyDeclaration => (namedMember? container .property s).toList
  | _ => []

/-- The type that a node declares. -/
def declaredType? (s : Site) : Option DeclaredType := do
  guard s.kind.isTypeDeclaration
  let name ← s.identText?
  let isEnum := s.kind == .enumDeclaration
  let members :=
    if isEnum then s.enumMembers.filterMap (enumMember? name)
    else s.members.flatMap (declaredMembers name)
  some
    { kind := s.kind
      symbol :=
        { kind := .type, name := name, declaration := some s.span,
          isStatic := !isEnum && s.hasModifier .staticKw }
      members := Member.firstOfEach members }

end Site

end CodeMend
