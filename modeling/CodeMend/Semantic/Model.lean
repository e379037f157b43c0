import CodeMend.Semantic.Catalog
import CodeMend.Semantic.Declared
import CodeMend.Semantic.Fold
import CodeMend.Semantic.Scope
import CodeMend.Syntax.Document

/-!
# The semantic model

A `Model` answers what the names of a document refer to, which type an expression has and which
value a constant has.  It knows the types that the document declares and the referenced library.
All answers are partial: what cannot be told without overload resolution or from a broken tree is
left open.
-/

namespace CodeMend

/-- What a document declares, and what it refers to. -/
structure Model where
  root : Site
  catalog : Catalog
  /-- The types that the document declares, in the order of the text. -/
  types : List DeclaredType

namespace Model

/-- The model of a document. -/
def ofDocument (d : Document) (catalog : Catalog) : Model :=
  ⟨d.root, catalog, d.root.subnodes.filterMap Site.declaredType?⟩

/-! ## Types by name -/

/-- The declared type of a name. -/
def declared? (m : Model) (name : String) : Option DeclaredType :=
  m.types.find? (·.symbol.name == name)

/-- The type that a node declares. -/
def typeAt? (m : Model) (s : Site) : Option DeclaredType :=
  m.types.find? (·.symbol.declaration == some s.span)

/-- A keyword for a type of the referenced library stands for its full name. -/
def libraryName : String → String
  | "string" => "System.String"
  | "object" => "System.Object"
  | name => name

/-- The type of a name: a declared one, else a referenced one. -/
def typeNamed? (m : Model) (name : String) : Option Symbol :=
  match m.declared? name with
  | some t => some t.symbol
  | none => (m.catalog.lookup? (libraryName name)).map fun t =>
    { kind := .type, name := t.name, container := some t.space, typeName := some t.fullName }

/-- A type without the mark that it may be null. -/
def withoutNullable (name : String) : String :=
  String.ofList (name.toList.reverse.dropWhile (· == '?')).reverse

/-- The type that a symbol has or, if it is one, is. -/
def typeOf? (m : Model) (s : Symbol) : Option String :=
  match s.kind with
  | .type =>
    match s.container with
    | some c => some (if (m.catalog.lookup? s.name).isSome then c ++ "." ++ s.name else s.name)
    | none => some s.name
  | .enumMember => s.container
  | _ => s.typeName

/-! ## Names -/

/-- What a simple name refers to: a variable in scope, a member of a type around it, or a type. -/
def nameAt? (m : Model) (s : Site) (name : String) : Option Symbol :=
  match s.visible? name with
  | some symbol => some symbol
  | none =>
    let types := (s.ancestors.filter (·.kind.isTypeDeclaration)).filterMap m.typeAt?
    match types.findSome? (·.member? name) with
    | some member => some member.symbol
    | none => m.typeNamed? name

/-- A chain of names with dots between them. -/
def qualified? (s : Site) : Option String :=
  match s.kind with
  | .identifierName => s.identText?
  | .memberAccessExpression =>
    match h : s.left? with
    | some receiver => do
      have := Site.sizeOf_tree_lt_of_left? h
      let space ← qualified? receiver
      return space ++ "." ++ (← s.memberName?.bind Site.identText?)
    | none => none
  | _ => none
termination_by sizeOf s.tree

/-- The member of a type, which is declared or referenced. -/
def memberOf? (m : Model) (type : Symbol) (name : String) : Option Symbol :=
  match m.declared? type.name with
  | some t => (t.member? name).map Member.symbol
  | none => do
    let t ← m.catalog.lookup? (← type.typeName)
    let method ← t.method? name
    some { kind := .method, name := name, container := some t.fullName,
           typeName := method.returnType, isStatic := method.isStatic }

/-- What a name behind a dot refers to, given what the receiver refers to.  A receiver that refers
to nothing may be a namespace. -/
def accessed? (m : Model) (receiver : Site) (name : String) : Option Symbol → Option Symbol
  | some symbol => do
    let type ←
      if symbol.kind == .type then some symbol
      else m.typeNamed? (withoutNullable (← m.typeOf? symbol))
    m.memberOf? type name
  | none => do m.typeNamed? ((← qualified? receiver) ++ "." ++ name)

/-- What an expression or a type refers to, taken as a whole. -/
def referent? (m : Model) (s : Site) : Option Symbol :=
  match s.kind with
  | .identifierName => s.identText?.bind (m.nameAt? s)
  | .memberAccessExpression =>
    match h : s.left? with
    | some receiver => do
      have := Site.sizeOf_tree_lt_of_left? h
      let name ← s.memberName?.bind Site.identText?
      m.accessed? receiver name (referent? m receiver)
    | none => none
  | .invocationExpression =>
    match h : s.left? with
    | some callee =>
      have := Site.sizeOf_tree_lt_of_left? h
      referent? m callee
    | none => none
  | .type => m.typeNamed? s.typeText
  | _ => none
termination_by sizeOf s.tree

/-- The member access of which a node is the name behind the dot. -/
def accessOf? (s : Site) : Option Site :=
  if s.kind == .identifierName then
    s.parent?.filter fun p =>
      p.kind == .memberAccessExpression && p.memberName?.any (·.same s)
  else none

/-- What a name, a member access, a call or a type refers to.  A name behind a dot refers to what
the whole access refers to. -/
def symbol? (m : Model) (s : Site) : Option Symbol := m.referent? ((accessOf? s).getD s)

/-- What a member declares, by the place of its node. -/
def memberAt? (m : Model) (s : Site) : Option Symbol :=
  ((m.types.flatMap DeclaredType.members).find? fun e =>
    e.symbol.declaration == some s.span && e.kind == s.kind).map Member.symbol

/-- What a declarator, a parameter, a member or a type declares. -/
def declaredSymbol? (m : Model) (s : Site) : Option Symbol :=
  match s.kind with
  | .parameter => s.parameterSymbol?
  | .variableDeclarator => do
    let declaration ← s.parent?
    guard (declaration.kind == .variableDeclaration)
    if declaration.parent?.any (·.kind == .fieldDeclaration) then m.memberAt? s
    else declaration.localSymbol? s
  | k => if k.isTypeDeclaration then (m.typeAt? s).map DeclaredType.symbol else m.memberAt? s

/-! ## Types of expressions -/

/-- Operators whose result is a truth value. -/
def isPredicate : Kind → Bool
  | .eqEq | .bangEq | .lt | .ltEq | .gtEq | .ampAmp | .pipePipe | .isKw => true
  | _ => false

/-- The type of a literal. -/
def literalType? : Kind → Option String
  | .trueKw | .falseKw => some "bool"
  | .intLiteral => some "int"
  | .stringLiteral => some "string"
  | .charLiteral => some "char"
  | _ => none

/-- The type of an expression, where it can be told without overload resolution. -/
def typeOfExpression? (m : Model) (s : Site) : Option String :=
  match s.kind with
  | .literalExpression => s.firstKind?.bind literalType?
  | .parenthesizedExpression =>
    match h : s.expression? with
    | some e =>
      have := Site.sizeOf_tree_lt_of_expression? h
      typeOfExpression? m e
    | none => none
  | .prefixUnaryExpression => do
    if (← s.firstKind?) == .bang then some "bool"
    else match h : s.expression? with
      | some e =>
        have := Site.sizeOf_tree_lt_of_expression? h
        typeOfExpression? m e
      | none => none
  | .binaryExpression => do
    let operator ← s.operator?
    if isPredicate operator || (operator == .gt && !s.isRightShift) then some "bool"
    else match hl : s.left?, hr : s.right? with
      | some l, some r =>
        have := Site.sizeOf_tree_lt_of_left? hl
        have := Site.sizeOf_tree_lt_of_right? hr
        let a ← typeOfExpression? m l
        let b ← typeOfExpression? m r
        if a == b then some a else none
      | _, _ => none
  | .objectCreationExpression => s.typeName?
  | .identifierName | .memberAccessExpression | .invocationExpression => do
    let symbol ← m.symbol? s
    if symbol.kind == .type then none else m.typeOf? symbol
  | _ => none
termination_by sizeOf s.tree

/-- Keywords for types that are references. -/
def referenceKeywords : List String := ["string", "object", "dynamic"]

/-- Keywords for types that are values. -/
def valueKeywords : List String :=
  ["bool", "byte", "sbyte", "short", "ushort", "int", "uint", "long", "ulong", "char", "float",
    "double", "decimal"]

/-- The last name of a dotted type, without its arguments. -/
def lastName (name : String) : String :=
  let plain := name.toList.takeWhile (· != '<')
  String.ofList (plain.reverse.takeWhile (· != '.')).reverse

/-- Is a type a reference, is it a value, or is it unknown? -/
def isReferenceType? (m : Model) (type : String) : Option Bool :=
  if type.endsWith "[]" then some true
  else
    let name := withoutNullable type
    let last := lastName name
    if referenceKeywords.contains last then some true
    else if valueKeywords.contains last then some false
    else match m.declared? last with
      | some t => some t.isReference
      | none =>
        let found := match m.catalog.lookup? name with
          | some t => some t
          | none => m.catalog.lookup? last
        found.map ReferenceType.isReference

/-- Has a type a static method of that name with so many parameters? -/
def hasStaticMethod (m : Model) (type method : String) (arity : Nat) : Bool :=
  match m.declared? type with
  | some t => (t.member? method).any fun e =>
      e.symbol.kind == .method && e.symbol.isStatic && e.arity == some arity
  | none => m.catalog.hasStaticMethod type method arity

/-! ## Constants -/

/-- May the node declare a constant? -/
def isConstantNode (s : Site) : Bool :=
  s.kind == .enumMemberDeclaration || s.kind == .variableDeclarator

/-- The node that declares a constant. -/
def declarationOf? (m : Model) (symbol : Symbol) : Option Site := do
  let span ← symbol.declaration
  (m.root.covering span).ancestors.find? fun s => s.isNode && s.span == span && isConstantNode s

/-- Does a declarator belong to a constant field or a constant local variable? -/
def isConstDeclarator (s : Site) : Bool :=
  (s.parent?.bind Site.parent?).any fun owner =>
    (owner.kind == .fieldDeclaration && owner.isConstField)
      || (owner.kind == .localDeclarationStatement && owner.isConstLocal)

/-- The member of an enumeration before this one. -/
def previousMember? (s : Site) : Option Site :=
  s.leftSiblings.find? fun t => t.isNode && t.kind == .enumMemberDeclaration

/-- The value that a declaration gives its constant.  `pending` are the spans of the declarations
that may still be used: one is used up while its own value is computed, so a constant that depends
on itself has no value. -/
def declaredConstant? (m : Model) (pending : List Span) (s : Site) : Option Constant :=
  if h : s.span ∈ pending then
    let rest := pending.filter (· != s.span)
    have : rest.length < pending.length :=
      List.length_filter_lt_length_iff_exists.2 ⟨s.span, h, by simp⟩
    let valueOf := Site.fold fun name => do
      let symbol ← m.symbol? name
      if symbol.isConst then declaredConstant? m rest (← m.declarationOf? symbol) else none
    if s.kind == .enumMemberDeclaration then
      match s.value? with
      | some e => valueOf e
      | none =>
        match previousMember? s with
        | none => some (.int 0)
        | some p => do
          let before ← (← declaredConstant? m rest p).asInt?
          (Constant.checked (before.toInt + 1)).map .int
    else if isConstDeclarator s then s.value?.bind valueOf
    else none
  else none
termination_by pending.length

/-- The spans of all declarations that may be constants. -/
def constantSpans (m : Model) : List Span := (m.root.subnodes.filter isConstantNode).map Site.span

/-- The value that a name refers to. -/
def namedConstant? (m : Model) (name : Site) : Option Constant := do
  let symbol ← m.symbol? name
  guard symbol.isConst
  m.declaredConstant? m.constantSpans (← m.declarationOf? symbol)

/-- The value of an expression, of a constant's declarator or of a member of an enumeration. -/
def constant? (m : Model) (s : Site) : Option Constant :=
  if isConstantNode s then m.declaredConstant? m.constantSpans s else s.fold m.namedConstant?

end Model

end CodeMend
