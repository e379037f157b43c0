import CodeMend.Engine.Rule

/-!
# Redundant constructors

An instance constructor without parameters and statements adds nothing if it is the only one of its
class and has the accessibility that the implicit one has: `public`, or `protected` in an abstract
class.
-/

namespace CodeMend.Rules.RedundantConstructor

/-- What the rule reports. -/
def descriptor : Descriptor where
  id := "RCS1074"
  title := "Remove redundant constructor"
  messageFormat := "Remove redundant constructor"
  category := "Redundancy"
  severity := .hidden

/-- Has the constructor the accessibility of the implicit one, and no other modifier? -/
def hasImplicitAccess (constructor type : Site) : Bool :=
  let expected := if type.hasModifier .abstractKw then Kind.protectedKw else .publicKw
  constructor.modifiers.map Site.kind == [expected]

/-- A list of arguments without any. -/
def callsWithNothing (initializer : Site) : Bool :=
  initializer.argumentList?.any (·.arguments.isEmpty)

/-- Has the constructor no parameters and no statements, and does it call nothing but the base
type's constructor without arguments? -/
def doesNothing (constructor : Site) : Bool :=
  constructor.parameterList?.any (·.parameters.isEmpty)
    && (constructor.child? .arrowExpressionClause).isNone
    && (constructor.child? .block).any (·.statements.isEmpty)
    && match constructor.child? .constructorInitializer with
      | none => true
      | some i => i.callsBase && callsWithNothing i

/-- Are there comments or directives in the constructor or in the trivia it owns? -/
def carriesNotes (s : Site) : Bool :=
  let leading := (s.firstSignificant?.map Site.leadingTrivia).getD []
  let trailing := (s.lastSignificant?.map Site.trailingTrivia).getD []
  (s.subtokens ++ leading ++ trailing).any fun t => t.kind.isComment || t.kind.isDirective

/-- The constructors of a type that make instances. -/
def instanceConstructors (type : Site) : List Site :=
  (type.childrenOf .constructorDeclaration).filter fun c => !c.hasModifier .staticKw

/-- Does the constructor of the class add nothing? -/
def isRedundant (constructor type : Site) : Bool :=
  type.kind == .classDeclaration
    && !constructor.hasModifier .staticKw
    && (constructor.child? .attributeList).isNone
    && !type.hasModifier .staticKw
    && hasImplicitAccess constructor type
    && doesNothing constructor
    && (instanceConstructors type).length == 1
    && !carriesNotes constructor

/-- What is found at a constructor. -/
def findings (_ : Context) (constructor : Site) : List Finding :=
  if constructor.parent?.any (isRedundant constructor) then
    [{ descriptor := descriptor, span := constructor.span }]
  else []

/-- Removes the constructor. -/
def fix (c : Context) (d : Diagnostic) : Except EditError (List CodeAction) :=
  match (c.nodeAt? d.span).filter (·.kind == .constructorDeclaration) with
  | none => .ok []
  | some constructor => do
    let e ← c.editor.removeMember constructor
    return [⟨"Remove redundant constructor", ⟨descriptor.id⟩, .fix, e.patch⟩]

/-- Finds constructors that add nothing. -/
def analyzer : Analyzer := .ofFindings descriptor [.constructorDeclaration] findings

/-- Removes them. -/
def provider : FixProvider := ⟨[descriptor.id], fun c d => .ofEdits (fix c d)⟩

end CodeMend.Rules.RedundantConstructor
