import CodeMend.Syntax.Parts

/-!
# Symbols

A `Symbol` is what a name refers to: something that the document declares, or a type or a method of
the referenced library.
-/

namespace CodeMend

/-- What sort of thing a name refers to. -/
inductive SymbolKind where
  | localVariable
  | parameter
  | field
  | property
  | method
  | type
  | enumMember
deriving DecidableEq

/-- The word for a sort. -/
def SymbolKind.label : SymbolKind → String
  | .localVariable => "Local"
  | .parameter => "Parameter"
  | .field => "Field"
  | .property => "Property"
  | .method => "Method"
  | .type => "Type"
  | .enumMember => "EnumMember"

/-- What a name refers to. -/
structure Symbol where
  kind : SymbolKind
  name : String
  /-- The span of the declaring node; none for what the document does not declare. -/
  declaration : Option Span := none
  /-- The type around it; for a referenced type, its namespace. -/
  container : Option String := none
  /-- The declared type; for a method, what it returns. -/
  typeName : Option String := none
  isStatic : Bool := false
  isConst : Bool := false
deriving DecidableEq

namespace Symbol

/-- The sort and the name with its container. -/
def render (s : Symbol) : String :=
  s.kind.label ++ " " ++ match s.container with
    | some c => c ++ "." ++ s.name
    | none => s.name

end Symbol

namespace Site

/-- The text of the declared type. -/
def typeName? (s : Site) : Option String := s.type?.map typeText

/-- The name that a parameter declares. -/
def parameterText? (s : Site) : Option String := s.parameterName?.map text

/-- What a parameter declares. -/
def parameterSymbol? (s : Site) : Option Symbol :=
  s.parameterText?.map fun name =>
    { kind := .parameter, name := name, declaration := some s.span, typeName := s.typeName? }

/-- What a declarator of a local variable declares, as a part of its declaration. -/
def localSymbol? (declaration declarator : Site) : Option Symbol :=
  declarator.identText?.map fun name =>
    { kind := .localVariable, name := name, declaration := some declarator.span,
      typeName := declaration.typeName?,
      isConst := declaration.parent?.any fun p =>
        p.kind == .localDeclarationStatement && p.isConstLocal }

end Site

end CodeMend
