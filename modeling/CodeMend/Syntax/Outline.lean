import CodeMend.Syntax.Parts

/-!
# Outlines

What a node is made of, part by part under the name of each part.  Kinds without parts of their own
have no outline.
-/

namespace CodeMend

/-- One part of a node, or a fact about it. -/
inductive Part where
  | node (site : Option Site)
  | nodes (sites : List Site)
  | token (site : Option Site)
  | kind (kind : Option Kind)
  | kinds (kinds : List Kind)
  | text (text : Option String)
  | fact (holds : Bool)
  | count (n : Nat)

namespace Site

/-- The first child node of a kind, as a part. -/
def partOf (s : Site) (name : String) (k : Kind) : String × Part := (name, .node (s.child? k))

/-- The name, where it is the first identifier. -/
def nameParts (s : Site) : List (String × Part) :=
  [("name", .text s.identText?), ("name_token", .token (s.token? .ident))]

/-- Both braces. -/
def braceParts (s : Site) : List (String × Part) :=
  [("open", .token s.openBrace?), ("close", .token s.closeBrace?)]

/-- The text of the first identifier, as a part. -/
def namePart (s : Site) : String × Part := ("name", .text s.identText?)

/-- Is there a `static`? -/
def staticPart (s : Site) : String × Part := ("static", .fact (s.hasModifier .staticKw))

/-- The parts of a declaration. -/
def declarationParts? (s : Site) : Option (List (String × Part)) :=
  match s.kind with
  | .compilationUnit =>
    some [("members", .nodes s.members), ("usings", .nodes (s.childrenOf .usingDirective))]
  | .namespaceDeclaration => some [("name", .text s.namespaceName?), ("members", .nodes s.members)]
  | .classDeclaration | .structDeclaration | .interfaceDeclaration =>
    some (s.nameParts ++ s.braceParts ++
      [s.staticPart, ("abstract", .fact (s.hasModifier .abstractKw)), s.partOf "base_list" .baseList,
       ("members", .nodes s.members),
       ("constructors", .nodes (s.childrenOf .constructorDeclaration))])
  | .enumDeclaration =>
    some (s.nameParts ++ s.braceParts ++
      [s.partOf "base_list" .baseList, ("members", .nodes s.enumMembers),
       ("commas", .count (s.tokens.filter (·.kind == .comma)).length)])
  | .enumMemberDeclaration =>
    some (s.nameParts ++ [s.partOf "equals" .equalsValueClause, ("value", .node s.value?)])
  | .equalsValueClause => some [("value", .node s.value?)]
  | .fieldDeclaration =>
    some [("const", .fact s.isConstField), ("static", .fact s.isStaticField),
      s.partOf "declaration" .variableDeclaration]
  | .variableDeclaration => some [s.partOf "type" .type, ("declarators", .nodes s.declarators)]
  | .variableDeclarator => some (s.nameParts ++ [("initializer", .node s.value?)])
  | .type =>
    some [("text", .text (some s.typeText)), ("predefined", .kind s.predefined?),
      ("simple_name", .text s.simpleName?), ("nullable", .fact (s.hasToken .question)),
      ("array", .fact (s.hasToken .lBracket)), s.partOf "type_arguments" .typeArgumentList]
  | .methodDeclaration =>
    some [s.namePart, s.partOf "return_type" .type, s.staticPart,
      s.partOf "parameters" .parameterList, s.partOf "body" .block]
  | .constructorDeclaration =>
    some [("name_token", .token (s.token? .ident)), ("modifiers", .kinds (s.modifiers.map kind)),
      s.staticPart, ("attributes", .nodes (s.childrenOf .attributeList)),
      s.partOf "parameters" .parameterList, s.partOf "initializer" .constructorInitializer,
      s.partOf "body" .block, s.partOf "expression_body" .arrowExpressionClause]
  | .constructorInitializer => some [("base", .fact s.callsBase), s.partOf "arguments" .argumentList]
  | .propertyDeclaration => some [s.namePart, s.partOf "type" .type, s.staticPart]
  | .parameterList => some [("parameters", .nodes s.parameters)]
  | .parameter =>
    some [("name", .text (s.parameterName?.map text)), ("name_token", .token s.parameterName?),
      s.partOf "type" .type]
  | _ => none

/-- The parts of a statement. -/
def statementParts? (s : Site) : Option (List (String × Part)) :=
  match s.kind with
  | .block => some (("statements", .nodes s.statements) :: s.braceParts)
  | .localDeclarationStatement =>
    some [("using", .fact (s.hasToken .usingKw)), ("const", .fact s.isConstLocal),
      s.partOf "declaration" .variableDeclaration]
  | .expressionStatement | .throwStatement => some [("expression", .node s.expression?)]
  | .ifStatement =>
    some [("if", .token (s.token? .ifKw)), ("condition", .node s.expression?),
      ("statement", .node s.statement?), s.partOf "else" .elseClause]
  | .elseClause => some [("statement", .node s.statement?)]
  | .switchStatement =>
    some ([("expression", .node s.expression?), ("sections", .nodes s.sections)] ++ s.braceParts)
  | .switchSection =>
    some [("labels", .nodes s.labels), ("statements", .nodes s.statements),
      ("sole_block", .node s.soleBlock?)]
  | _ => none

/-- The parts of an expression. -/
def expressionParts? (s : Site) : Option (List (String × Part)) :=
  match s.kind with
  | .parenthesizedExpression => some [("expression", .node s.expression?)]
  | .binaryExpression =>
    some [("lhs", .node s.left?), ("rhs", .node s.right?), ("operator", .kind s.operator?),
      ("operator_token", .token s.operatorToken?), ("right_shift", .fact s.isRightShift)]
  | .prefixUnaryExpression =>
    some [("operator", .kind s.firstKind?), ("operand", .node s.expression?)]
  | .literalExpression => some [("token", .token s.firstToken?), ("kind", .kind s.firstKind?)]
  | .identifierName => some [("ident", .token (s.token? .ident)), ("text", .text s.identText?)]
  | .memberAccessExpression =>
    some [("expression", .node s.left?), ("name", .node s.memberName?),
      ("conditional", .fact (s.hasToken .questionDot))]
  | .invocationExpression => some [("expression", .node s.left?), s.partOf "arguments" .argumentList]
  | .objectCreationExpression =>
    some [s.partOf "type" .type, s.partOf "arguments" .argumentList,
      s.partOf "initializer" .initializerExpression]
  | .argumentList => some [("arguments", .nodes s.arguments)]
  | .argument =>
    some [("expression", .node s.expression?), ("name", .text s.argumentName?),
      ("ref_kind", .kind s.refKind?)]
  | _ => none

/-- The parts of a node, by its kind. -/
def outline? (s : Site) : Option (List (String × Part)) :=
  s.declarationParts? <|> s.statementParts? <|> s.expressionParts?

end Site

end CodeMend
