import CodeMend.Syntax.Parse.Lookahead

/-!
# The grammar

`Rule` lists the phrases through which the grammar refers to itself.  Every definition below takes
`self`, the meaning of those phrases, as a parameter; `phrase` ties each rule to its definition.
What holds of `phrase self` whenever it holds of `self` therefore holds of the parser.
-/

namespace CodeMend.Parse

/-- The phrases through which the grammar refers to itself. -/
inductive Rule where
  /-- A namespace, type or member; a type's body knows the name of the type, by which constructors
  are told from methods. -/
  | member (enclosing : Option String)
  | statement
  | expression
  /-- Operators that bind at least as tightly as `level`. -/
  | binary (level : Nat)
  | unary
  | type

variable (self : Rule → Parser)

/-! ## Names and types -/

/-- A dotted name. -/
def name : Parser :=
  either (ahead .ident)
    (node .name
      [bump, repeatWhile (fun ts => ahead .dot ts && aheadAt 1 .ident ts) (all [bump, bump])])
    (complain "Expected a name")

/-- Type arguments in angle brackets. -/
def typeArguments : Parser :=
  node .typeArgumentList [bump, separated (self .type), expect .gt]

/-- A rank specifier such as `[]` or `[,]`. -/
def rank : Parser := all [bump, repeatWhile (ahead .comma) bump, expect .rBracket]

/-- A part of a dotted type name behind its identifier: type arguments, then a dot and the next
identifier, if any. -/
def typeNameTail : Parser :=
  let arguments := given atTypeArguments (typeArguments self)
  loop (fun _ => true) fun ts =>
    let s := arguments ts
    if ahead .dot s.rest && aheadAt 1 .ident s.rest then ⟨s.andThen (all [bump, bump]), true⟩
    else ⟨s, false⟩

/-- A type. -/
def typePhrase : Parser :=
  let suffix := all
    [eat .question,
     repeatWhile (fun ts => ahead .lBracket ts && (aheadAt 1 .rBracket ts || aheadAt 1 .comma ts))
       rank]
  either (ahead .ident) (node .type [bump, typeNameTail self, suffix])
    (either startsType (node .type [bump, suffix]) (complain "Expected a type"))

/-! ## Arguments -/

/-- An argument with its name or its `ref`, `out` or `in`. -/
def argument : Parser :=
  let modifier : Look := fun ts => [.refKw, .outKw, .inKw].contains (current ts)
  node .argument
    [fun ts =>
      if ahead .ident ts && aheadAt 1 .colon ts then all [bump, bump] ts
      else given modifier (all [bump, given (atTypedName false) (self .type)]) ts,
     self .expression]

/-- Can an argument start here? -/
def atArgument : Look := fun ts =>
  (ahead .ident ts && aheadAt 1 .colon ts) || [.refKw, .outKw, .inKw].contains (current ts)
    || atExpression ts

/-- Arguments up to a closing bracket. -/
def arguments (closing : Kind) : Parser :=
  loop (fun ts => !ahead closing ts && !atEnd ts) fun ts =>
    if atArgument ts then commaTurn (argument self) (fun _ => stop done) ts
    else stop (complain "Expected an argument") ts

/-- Arguments in parentheses. -/
def argumentList : Parser :=
  node .argumentList [bump, arguments self .rParen, expect .rParen]

/-- Arguments in brackets. -/
def bracketedArgumentList : Parser :=
  node .bracketedArgumentList [bump, arguments self .rBracket, expect .rBracket]

/-- Attributes in brackets. -/
def attributeList : Parser :=
  let item := either (ahead .ident)
    (node .attributeSpec [name, given (ahead .lParen) (argumentList self)])
    (complain "Expected an attribute")
  node .attributeList [bump, separated item, expect .rBracket]

/-- Any number of attribute lists. -/
def attributeLists : Parser := repeatWhile (ahead .lBracket) (attributeList self)

/-- Any number of modifiers. -/
def modifiers : Parser := repeatWhile (fun ts => (current ts).isModifier) bump

/-! ## Expressions -/

/-- Elements in braces. -/
def initializer : Parser :=
  node .initializerExpression
    [bump,
     loop (fun ts => !ahead .rBrace ts && !atEnd ts)
       (commaTurn (self .expression) fun stuck =>
         if stuck then goOn (skip "Expected an initializer element") else stop done),
     expect .rBrace]

/-- An object creation; type, arguments and initializer may each be missing. -/
def objectCreation : Parser :=
  node .objectCreationExpression
    [bump,
     given startsType (self .type),
     given (ahead .lBracket) (bracketedArgumentList self),
     given (ahead .lParen) (argumentList self),
     given (ahead .lBrace) (initializer self)]

/-- A name standing as an expression. -/
def identifierName : Parser := node .identifierName [bump]

/-- The primary expression that starts with a token of kind `k`. -/
def primary? (k : Kind) : Option Parser :=
  if k.isLiteral then some (node .literalExpression [bump])
  else if k.isPredefinedType then some (self .type)
  else match k with
    | .ident => some identifierName
    | .thisKw => some (node .thisExpression [bump])
    | .baseKw => some (node .baseExpression [bump])
    | .lParen =>
      some (node .parenthesizedExpression [bump, self .expression, expect .rParen])
    | .newKw => some (objectCreation self)
    | .typeofKw =>
      some (node .typeOfExpression [bump, expect .lParen, self .type, expect .rParen])
    | .defaultKw =>
      some (node .defaultExpression
        [bump, given (ahead .lParen) (all [bump, self .type, expect .rParen])])
    | .lBrace => some (initializer self)
    | _ => none

/-- How a primary expression goes on, if it does. -/
def suffix? (ts : List Token) : Option (Kind × List Parser) :=
  match current ts with
  | .dot | .questionDot =>
    some (.memberAccessExpression,
      [bump, either (ahead .ident) identifierName (complain "Expected a member name")])
  | .lParen => some (.invocationExpression, [argumentList self])
  | .lBracket => some (.elementAccessExpression, [bracketedArgumentList self])
  | .plusPlus | .minusMinus => some (.postfixUnaryExpression, [bump])
  | _ => none

/-- A primary expression with what follows it. -/
def suffixPhrase : Parser :=
  all [flush, fun ts =>
    match primary? self (current ts) with
    | some p => wrapped p (suffix? self) ts
    | none => complain "Expected an expression" ts]

/-- An operand with the operators before it. -/
def unaryPhrase : Parser := fun ts =>
  if [.bang, .minus, .plus, .tilde, .plusPlus, .minusMinus].contains (current ts) then
    node .prefixUnaryExpression [bump, self .unary] ts
  else suffixPhrase self ts

/-- How a binary expression goes on at `level`, if it does.  Operators group to the left, `??` to
the right; `is` and `as` may have a type on their right. -/
def binary? (level : Nat) (ts : List Token) : Option (Kind × List Parser) := do
  let (precedence, width) ← operator? ts
  guard (level ≤ precedence)
  let operator := current ts
  let right : Parser := fun ts =>
    if (operator == .isKw || operator == .asKw) && startsType ts && !aheadAt 1 .dot ts then
      self .type ts
    else if operator == .questionQuestion then self (.binary precedence) ts
    else self (.binary (precedence + 1)) ts
  some (.binaryExpression, List.replicate width bump ++ [right])

/-- An expression of operators that bind at least as tightly as `level`. -/
def binaryPhrase (level : Nat) : Parser :=
  all [flush, wrapped (self .unary) (binary? self level)]

/-- A condition with its two outcomes, or an expression of binary operators. -/
def conditional : Parser :=
  all [flush,
    extendIf (self (.binary 0)) (ahead .question) .conditionalExpression
      [bump, self .expression, expect .colon, self .expression]]

/-! ## Statements -/

/-- A block. -/
def block : Parser :=
  node .block
    [bump,
     repeatWhile (fun ts => !ahead .rBrace ts && !atEnd ts)
       (orWhenStuck (self .statement) (skip "Expected a statement")),
     expect .rBrace]

/-- A block, or a complaint that its brace is missing. -/
def requiredBlock : Parser := either (ahead .lBrace) (block self) (complain "Expected '\x7b'")

/-- A parameter of a lambda. -/
def lambdaParameter : Parser :=
  node .parameter [given (atTypedName true) (self .type), expect .ident]

/-- The parameters of a lambda in parentheses. -/
def lambdaParameters : Parser :=
  node .parameterList
    [bump,
     loop (fun ts => !ahead .rParen ts && !atEnd ts)
       (commaTurn (lambdaParameter self) fun stuck =>
         stop (if stuck then skip "Expected a parameter" else done)),
     expect .rParen]

/-- A lambda with a block or an expression as its body. -/
def lambda : Parser :=
  node .lambdaExpression
    [either (ahead .ident) (node .parameter [bump]) (lambdaParameters self),
     expect .fatArrow,
     either (ahead .lBrace) (block self) (self .expression)]

/-- An expression. -/
def expressionPhrase : Parser :=
  either (fun ts => !atExpression ts) (complain "Expected an expression")
    (either atLambda (lambda self)
      (all [flush,
        extendIf (conditional self) (fun ts => isAssignment (current ts)) .assignmentExpression
          [bump, self .expression]]))

/-- `=` and an expression. -/
def equalsValue : Parser := node .equalsValueClause [bump, self .expression]

/-- A type and its declarators. -/
def variableDeclaration : Parser :=
  let declarator := either (ahead .ident)
    (node .variableDeclarator [bump, given (ahead .eq) (equalsValue self)])
    (complain "Expected a variable name")
  node .variableDeclaration [self .type, separated declarator]

/-- A condition in parentheses. -/
def condition : Parser := all [expect .lParen, self .expression, expect .rParen]

/-- A statement inside another one. -/
def embedded : Parser := orWhenStuck (self .statement) (complain "Expected a statement")

/-- Expressions with commas between them. -/
def expressionList (closing : Kind) : Parser :=
  loop (fun ts => !ahead closing ts && atExpression ts)
    (commaTurn (self .expression) (fun _ => stop done))

/-- `return` or `throw` with an optional expression. -/
def valueJump (k : Kind) : Parser :=
  node k [bump, given (fun ts => !ahead .semicolon ts) (self .expression), expect .semicolon]

/-- `break` or `continue`. -/
def plainJump (k : Kind) : Parser := node k [bump, expect .semicolon]

/-- A label of a switch section. -/
def switchLabel : Parser :=
  either (ahead .caseKw)
    (node .caseSwitchLabel [bump, self .expression, expect .colon])
    (node .defaultSwitchLabel [bump, expect .colon])

/-- Labels and the statements they lead to. -/
def switchSection : Parser :=
  node .switchSection
    [repeatWhile atSwitchLabel (switchLabel self),
     repeatWhile (fun ts => !atSwitchLabel ts && !ahead .rBrace ts && !atEnd ts)
       (orWhenStuck (self .statement) (skip "Expected a statement"))]

/-- A `switch`. -/
def switchStatement : Parser :=
  node .switchStatement
    [bump, condition self, expect .lBrace,
     repeatWhile (fun ts => !ahead .rBrace ts && !atEnd ts)
       (either atSwitchLabel (switchSection self) (skip "Expected 'case' or 'default'")),
     expect .rBrace]

/-- An `if` with an optional `else`. -/
def ifStatement : Parser :=
  node .ifStatement
    [bump, condition self, embedded self,
     given (ahead .elseKw) (node .elseClause [bump, embedded self])]

/-- A `while`. -/
def whileStatement : Parser := node .whileStatement [bump, condition self, embedded self]

/-- A `do`. -/
def doStatement : Parser :=
  node .doStatement [bump, embedded self, expect .whileKw, condition self, expect .semicolon]

/-- A `for`. -/
def forStatement : Parser :=
  node .forStatement
    [bump, expect .lParen,
     either atLocalDeclaration (variableDeclaration self) (expressionList self .semicolon),
     expect .semicolon,
     given (fun ts => !ahead .semicolon ts) (self .expression),
     expect .semicolon,
     expressionList self .rParen,
     expect .rParen,
     embedded self]

/-- A `foreach`. -/
def forEachStatement : Parser :=
  node .forEachStatement
    [bump, expect .lParen, self .type, expect .ident, expect .inKw, self .expression,
     expect .rParen, embedded self]

/-- A `using` with a resource in parentheses. -/
def usingStatement : Parser :=
  node .usingStatement
    [bump, bump,
     either atLocalDeclaration (variableDeclaration self) (self .expression),
     expect .rParen, embedded self]

/-- One `catch`. -/
def catchClause : Parser :=
  node .catchClause
    [bump,
     given (ahead .lParen)
       (node .catchDeclaration [bump, self .type, eat .ident, expect .rParen]),
     requiredBlock self]

/-- A `try` with its handlers. -/
def tryStatement : Parser :=
  node .tryStatement
    [bump, requiredBlock self,
     repeatWhile (ahead .catchKw) (catchClause self),
     given (ahead .finallyKw) (node .finallyClause [bump, requiredBlock self])]

/-- A declaration of local variables behind `lead`. -/
def localDeclaration (lead : List Parser) : Parser :=
  node .localDeclarationStatement (lead ++ [variableDeclaration self, expect .semicolon])

/-- The statement that starts with a token of kind `k`; nothing at all if none does. -/
def statementFor (k : Kind) : Parser :=
  match k with
  | .lBrace => block self
  | .semicolon => node .emptyStatement [bump]
  | .ifKw => ifStatement self
  | .switchKw => switchStatement self
  | .returnKw => valueJump self .returnStatement
  | .throwKw => valueJump self .throwStatement
  | .breakKw => plainJump .breakStatement
  | .continueKw => plainJump .continueStatement
  | .whileKw => whileStatement self
  | .doKw => doStatement self
  | .forKw => forStatement self
  | .foreachKw => forEachStatement self
  | .tryKw => tryStatement self
  | .usingKw => either (aheadAt 1 .lParen) (usingStatement self) (localDeclaration self [bump])
  | .constKw => localDeclaration self [bump]
  | _ =>
    either atLocalDeclaration (localDeclaration self [])
      (given atExpression (node .expressionStatement [self .expression, expect .semicolon]))

/-- A statement. -/
def statementPhrase : Parser := fun ts => statementFor self (current ts) ts

/-! ## Declarations -/

/-- `using` and a name, with an optional alias. -/
def usingDirective : Parser :=
  node .usingDirective
    [bump, eat .staticKw,
     given (fun ts => ahead .ident ts && aheadAt 1 .eq ts) (all [bump, bump]),
     name, expect .semicolon]

/-- Declarations up to the end of the file. -/
def declarations : Parser :=
  repeatWhile (fun ts => !atEnd ts)
    (orWhenStuck (self (.member none)) (skip "Expected a declaration"))

/-- Declarations up to a closing brace. -/
def memberList (enclosing : Option String) : Parser :=
  repeatWhile (fun ts => !ahead .rBrace ts && !atEnd ts)
    (orWhenStuck (self (.member enclosing)) (skip "Unexpected token in declaration list"))

/-- A namespace with a body in braces, or one that takes the rest of the file. -/
def namespaceDeclaration : Parser :=
  node .namespaceDeclaration
    [bump, name,
     either (ahead .semicolon)
       (all [bump, declarations self])
       (all [expect .lBrace, memberList self none, expect .rBrace])]

/-- Type parameters in angle brackets. -/
def typeParameters : Parser :=
  let item := either (ahead .ident) (node .typeParameter [bump])
    (complain "Expected a type parameter")
  node .typeParameterList [bump, separated item, expect .gt]

/-- A colon and types. -/
def baseList : Parser := node .baseList [bump, separated (self .type)]

/-- Constraints, which are kept as they stand. -/
def constraints : Parser :=
  repeatWhile (fun ts => ahead .ident ts && currentText ts == "where")
    (repeatWhile (fun ts => !atEnd ts && !ahead .lBrace ts && !ahead .semicolon ts) bump)

/-- What follows the modifiers of a class, struct or interface. -/
def typeDeclaration : Parser :=
  all [bump, fun ts =>
    all [expect .ident,
      given (ahead .lt) typeParameters,
      given (ahead .colon) (baseList self),
      constraints,
      expect .lBrace,
      memberList self (some (currentText ts)),
      expect .rBrace,
      eat .semicolon] ts]

/-- A member of an enumeration. -/
def enumMember : Parser :=
  node .enumMemberDeclaration
    [attributeLists self, expect .ident, given (ahead .eq) (equalsValue self)]

/-- The members of an enumeration. -/
def enumMembers : Parser :=
  loop (fun ts => !ahead .rBrace ts && !atEnd ts)
    (commaTurn (given (fun ts => ahead .ident ts || ahead .lBracket ts) (enumMember self))
      fun stuck => if stuck then goOn (skip "Expected an enum member") else fun ts =>
        if ahead .rBrace ts then goOn done ts else stop (complain "Expected ',' or '\x7d'") ts)

/-- What follows the modifiers of an enumeration. -/
def enumDeclaration : Parser :=
  all [bump, expect .ident, given (ahead .colon) (baseList self), expect .lBrace,
    enumMembers self, expect .rBrace, eat .semicolon]

/-- A parameter; nothing at all if none starts here. -/
def parameter : Parser :=
  given (fun ts => ahead .lBracket ts || atParameterModifier ts || atType ts)
    (node .parameter
      [attributeLists self, repeatWhile atParameterModifier bump, self .type, expect .ident,
       given (ahead .eq) (equalsValue self)])

/-- The parameters of a method or constructor. -/
def parameterList : Parser :=
  let items := loop (fun _ => true) fun ts =>
    let s := parameter self ts
    if stuck ts s then ⟨s.andThen (complain "Expected a parameter"), false⟩
    else if ahead .comma s.rest then ⟨s.andThen bump, true⟩
    else ⟨s, false⟩
  node .parameterList
    [expect .lParen, given (fun ts => !ahead .rParen ts) items, expect .rParen]

/-- `=>` and an expression. -/
def arrowClause : Parser := node .arrowExpressionClause [bump, self .expression]

/-- A block, an arrow clause or a bare semicolon. -/
def body : Parser :=
  either (ahead .lBrace) (block self)
    (either (ahead .fatArrow) (all [arrowClause self, expect .semicolon]) (expect .semicolon))

/-- The call of another constructor behind a colon. -/
def constructorInitializer : Parser :=
  node .constructorInitializer
    [bump,
     either (fun ts => ahead .baseKw ts || ahead .thisKw ts) bump
       (complain "Expected 'base' or 'this'"),
     either (ahead .lParen) (argumentList self) (complain "Expected '('")]

/-- What follows the modifiers of a constructor. -/
def constructor : Parser :=
  all [bump, parameterList self, given (ahead .colon) (constructorInitializer self), body self]

/-- What follows the modifiers of a method. -/
def method : Parser :=
  all [self .type, bump, given (ahead .lt) typeParameters, parameterList self, constraints,
    body self]

/-- One accessor of a property; nothing at all if none starts here. -/
def accessor : Parser :=
  given (fun ts => ahead .ident ts || ahead .lBracket ts || (current ts).isModifier)
    (node .accessorDeclaration [attributeLists self, modifiers, expect .ident, body self])

/-- The accessors of a property. -/
def accessorList : Parser :=
  node .accessorList
    [bump,
     repeatWhile (fun ts => !ahead .rBrace ts && !atEnd ts)
       (orWhenStuck (accessor self) (skip "Expected an accessor")),
     expect .rBrace]

/-- What follows the modifiers of a property. -/
def property : Parser :=
  all [self .type, bump,
    either (ahead .fatArrow) (all [arrowClause self, expect .semicolon])
      (all [accessorList self,
        given (ahead .eq) (all [equalsValue self, expect .semicolon])])]

/-- What follows the modifiers of a field. -/
def field : Parser := all [variableDeclaration self, expect .semicolon]

/-- A type without a member name: complains and takes what stands before the next `;` or brace. -/
def nameless : Parser :=
  all [complain "Expected a member name",
    repeatWhile
      (fun ts => !atEnd ts && !ahead .semicolon ts && !ahead .rBrace ts && !ahead .lBrace ts) bump,
    eat .semicolon]

/-- Which declaration follows attributes and modifiers, told by what comes next. -/
def declaration? (enclosing : Option String) (ts : List Token) : Option (Kind × Parser) :=
  match current ts with
  | .classKw => some (.classDeclaration, typeDeclaration self)
  | .structKw => some (.structDeclaration, typeDeclaration self)
  | .interfaceKw => some (.interfaceDeclaration, typeDeclaration self)
  | .enumKw => some (.enumDeclaration, enumDeclaration self)
  | k =>
    if k == .ident && aheadAt 1 .lParen ts && enclosing == some (currentText ts) then
      some (.constructorDeclaration, constructor self)
    else match pastType true ts with
      | none => none
      | some (.ident :: .lParen :: _) | some (.ident :: .lt :: _) =>
        some (.methodDeclaration, method self)
      | some (.ident :: .lBrace :: _) | some (.ident :: .fatArrow :: _) =>
        some (.propertyDeclaration, property self)
      | some (.ident :: _) => some (.fieldDeclaration, field self)
      | some _ => some (.error, nameless)

/-- Attributes, modifiers and the declaration they belong to, under one node.  Attributes and
modifiers without a declaration make an error node; nothing at all builds nothing. -/
def declared (enclosing : Option String) : Parser := fun ts =>
  let lead := all [attributeLists self, modifiers] ts
  match declaration? self enclosing lead.rest with
  | some (k, p) => under k (fun _ => lead.andThen p) ts
  | none =>
    if stuck ts lead then lead
    else under .error (fun _ => lead.andThen (complain "Expected a member declaration")) ts

/-- A declaration behind the trivia before it. -/
def declaration (enclosing : Option String) : Parser := all [flush, declared self enclosing]

/-- The namespace, type or member that starts with a token of kind `k`; nothing at all if none
does. -/
def memberFor (enclosing : Option String) (k : Kind) : Parser :=
  match k with
  | .usingKw => either (fun _ => enclosing.isNone) usingDirective (declaration self enclosing)
  | .namespaceKw => namespaceDeclaration self
  | .semicolon | .rBrace | .endOfFile => done
  | _ => declaration self enclosing

/-- A namespace, type or member. -/
def memberPhrase (enclosing : Option String) : Parser := fun ts =>
  memberFor self enclosing (current ts) ts

/-! ## The whole -/

/-- The meaning of each rule, given the meaning of the rules it refers to. -/
def phrase : Rule → Parser
  | .member enclosing => memberPhrase self enclosing
  | .statement => statementPhrase self
  | .expression => expressionPhrase self
  | .binary level => binaryPhrase self level
  | .unary => unaryPhrase self
  | .type => typePhrase self

/-- A rule, unfolded at most `fuel` deep. -/
def unfold : Nat → Rule → Parser
  | 0, _ => giveUp
  | fuel + 1, rule => phrase (unfold fuel) rule

/-- A whole source file: declarations, trivia and the end of the file. -/
def unit (self : Rule → Parser) : Parser :=
  under .compilationUnit (all [declarations self, flush, fun ts =>
    ⟨(ts.take 1).map leaf, [], ts.drop 1, false⟩])

/-- Between two tokens fewer than this many rules are entered, so the parser never stops early. -/
def rulesPerToken : Nat := 8

/-- Parses tokens that end with the end of the file. -/
def source : Parser := fun ts => unit (unfold (rulesPerToken * (ts.length + 1))) ts

end CodeMend.Parse
