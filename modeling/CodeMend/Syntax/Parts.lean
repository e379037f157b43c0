import CodeMend.Syntax.Site

/-!
# Parts of nodes

What a declaration, statement or expression is made of, found among the children of its node.  A
broken tree may lack any part, so every question has an optional answer.
-/

namespace CodeMend.Site

/-! ## Children by kind -/

/-- The first child node of kind `k`. -/
def child? (s : Site) (k : Kind) : Option Site := s.nodes.find? (·.kind == k)

/-- The child nodes of kind `k`. -/
def childrenOf (s : Site) (k : Kind) : List Site := s.nodes.filter (·.kind == k)

/-- The first token of kind `k` among the children. -/
def token? (s : Site) (k : Kind) : Option Site := s.tokens.find? (·.kind == k)

/-- The last token of kind `k` among the children. -/
def lastTokenOf? (s : Site) (k : Kind) : Option Site := (s.tokens.filter (·.kind == k)).getLast?

/-- Does a token of kind `k` stand among the children? -/
def hasToken (s : Site) (k : Kind) : Bool := (s.token? k).isSome

/-- The text of the first identifier among the children. -/
def identText? (s : Site) : Option String := (s.token? .ident).map text

/-- The opening brace. -/
def openBrace? (s : Site) : Option Site := s.token? .lBrace

/-- The closing brace. -/
def closeBrace? (s : Site) : Option Site := s.lastTokenOf? .rBrace

/-- The child nodes that are expressions, types included. -/
def expressions (s : Site) : List Site := s.nodes.filter (·.kind.isExpression)

/-- The first child that is an expression and not a type. -/
def expression? (s : Site) : Option Site :=
  s.nodes.find? (fun n => n.kind.isExpression && n.kind != .type)

/-- The expression of a node is smaller than the node. -/
theorem sizeOf_tree_lt_of_expression? {s e : Site} (h : s.expression? = some e) :
    sizeOf e.tree < sizeOf s.tree :=
  sizeOf_tree_lt_of_mem_children (List.mem_filter.1 (List.mem_of_find?_eq_some h)).1

/-- Expressions among the children are smaller than the node. -/
theorem sizeOf_tree_lt_of_mem_expressions {s e : Site} (h : e ∈ s.expressions) :
    sizeOf e.tree < sizeOf s.tree :=
  sizeOf_tree_lt_of_mem_children (List.mem_filter.1 (List.mem_filter.1 h).1).1

/-- The child nodes that are statements. -/
def statements (s : Site) : List Site := s.nodes.filter (·.kind.isStatement)

/-- The child nodes that declare members. -/
def members (s : Site) : List Site := s.nodes.filter (·.kind.isMemberDeclaration)

/-- The modifiers. -/
def modifiers (s : Site) : List Site := s.tokens.filter (·.kind.isModifier)

/-- Is there a modifier of kind `k`? -/
def hasModifier (s : Site) (k : Kind) : Bool := s.modifiers.any (·.kind == k)

/-! ## Declarations -/

/-- The dotted name of a namespace. -/
def namespaceName? (s : Site) : Option String := (s.child? .name).map text

/-- The expression behind an equals sign: of the clause itself, or of the clause among the
children. -/
def value? (s : Site) : Option Site :=
  if s.kind == .equalsValueClause then s.expression?
  else (s.child? .equalsValueClause).bind expression?

/-- Is a field constant? -/
def isConstField (s : Site) : Bool := s.hasModifier .constKw

/-- Is a field static?  A constant is. -/
def isStaticField (s : Site) : Bool := s.isConstField || s.hasModifier .staticKw

/-- Is a local declaration constant? -/
def isConstLocal (s : Site) : Bool := s.hasToken .constKw

/-- The declarators of a variable declaration. -/
def declarators (s : Site) : List Site := s.childrenOf .variableDeclarator

/-- The members of an enumeration. -/
def enumMembers (s : Site) : List Site := s.childrenOf .enumMemberDeclaration

/-- The name of a parameter is its last identifier. -/
def parameterName? (s : Site) : Option Site := s.lastTokenOf? .ident

/-- The parameters of a list. -/
def parameters (s : Site) : List Site := s.childrenOf .parameter

/-- Does a constructor call the base type's? -/
def callsBase (s : Site) : Bool := s.hasToken .baseKw

/-- The declaration of a field or a local: its type and its declarators. -/
def declaration? (s : Site) : Option Site := s.child? .variableDeclaration

/-- The declared type. -/
def type? (s : Site) : Option Site := s.child? .type

/-- The list of parameters. -/
def parameterList? (s : Site) : Option Site := s.child? .parameterList

/-- The list of arguments. -/
def argumentList? (s : Site) : Option Site := s.child? .argumentList

/-! ## Types -/

/-- A type as written, without trivia. -/
def typeText (s : Site) : String :=
  String.join ((s.subtokens.filter (fun t => !t.isTrivia)).map text)

/-- The predefined type a type starts with. -/
def predefined? (s : Site) : Option Kind := (s.firstToken?.map kind).filter (·.isPredefinedType)

/-- The last name of a dotted type, without its arguments. -/
def simpleName? (s : Site) : Option String :=
  ((s.tokens.filter (fun t => t.kind == .ident || t.kind.isPredefinedType)).getLast?).map text

/-! ## Statements -/

/-- The first statement among the children. -/
def statement? (s : Site) : Option Site := s.statements.head?

/-- The sections of a switch. -/
def sections (s : Site) : List Site := s.childrenOf .switchSection

/-- The labels of a switch section. -/
def labels (s : Site) : List Site :=
  s.nodes.filter (fun n => n.kind == .caseSwitchLabel || n.kind == .defaultSwitchLabel)

/-- The only statement of a switch section, if it is a block. -/
def soleBlock? (s : Site) : Option Site :=
  match s.statements with
  | [b] => if b.kind == .block then some b else none
  | _ => none

/-! ## Expressions -/

/-- The left operand or the receiver. -/
def left? (s : Site) : Option Site := s.expressions.head?

/-- The left operand is smaller than the whole. -/
theorem sizeOf_tree_lt_of_left? {s e : Site} (h : s.left? = some e) :
    sizeOf e.tree < sizeOf s.tree :=
  sizeOf_tree_lt_of_mem_expressions (List.mem_of_head? h)

/-- The right operand. -/
def right? (s : Site) : Option Site := s.expressions[1]?

/-- The right operand is smaller than the whole. -/
theorem sizeOf_tree_lt_of_right? {s e : Site} (h : s.right? = some e) :
    sizeOf e.tree < sizeOf s.tree :=
  sizeOf_tree_lt_of_mem_expressions (List.mem_of_getElem? h)

/-- The operator of a binary expression; of a right shift, the first `>`. -/
def operatorToken? (s : Site) : Option Site := s.tokens.find? (fun t => !t.isTrivia)

/-- The kind of the operator of a binary expression. -/
def operator? (s : Site) : Option Kind := s.operatorToken?.map kind

/-- Is the operator of a binary expression a right shift? -/
def isRightShift (s : Site) : Bool := (s.tokens.filter (·.kind == .gt)).length == 2

/-- The kind of the first token: the operator of a prefix expression, the kind of a literal. -/
def firstKind? (s : Site) : Option Kind := s.firstToken?.map kind

/-- The name behind the dot of a member access. -/
def memberName? (s : Site) : Option Site := (s.childrenOf .identifierName).getLast?

/-- The arguments of a list. -/
def arguments (s : Site) : List Site := s.childrenOf .argument

/-- The name before the colon of a named argument. -/
def argumentName? (s : Site) : Option String := do
  let colon ← s.token? .colon
  let before ← colon.prevToken?
  guard (before.kind == .ident)
  some before.text

/-- The `ref`, `out` or `in` of an argument. -/
def refKind? (s : Site) : Option Kind :=
  (s.tokens.map kind).find? (fun k => k == .refKw || k == .outKw || k == .inKw)

end CodeMend.Site
