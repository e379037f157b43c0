/-!
# Kinds of syntax

One flat enumeration covers trivia, tokens and nodes.  The declaration order is part of the
format: a kind is exchanged as its position in `Kind.all`, and two classes of keywords are
contiguous stretches of it.

`Kind.label` is the spelling used in dumps and messages; `keyword?` maps a word to its keyword.
-/

namespace CodeMend

/-- Every kind of trivia, token and node. -/
inductive Kind where
  -- Trivia
  | whitespace | newline | lineComment | blockComment | docComment | ifDirective
  | elifDirective | elseDirective | endIfDirective | regionDirective | endRegionDirective
  | otherDirective
  -- Punctuation
  | lBrace | rBrace | lParen | rParen | lBracket | rBracket
  | semicolon | comma | dot | colon | question | questionQuestion
  | questionDot | questionQuestionEq | eq | eqEq | bangEq | lt
  | gt | ltEq | gtEq | plus | minus | star
  | slash | percent | bang | tilde | amp | ampAmp
  | pipe | pipePipe | caret | ltLt | plusPlus | minusMinus
  | plusEq | minusEq | starEq | slashEq | percentEq | ampEq
  | pipeEq | caretEq | ltLtEq | fatArrow
  -- Literals and identifiers
  | intLiteral | realLiteral | stringLiteral | charLiteral | ident
  -- Keywords
  | usingKw | namespaceKw | classKw | structKw | interfaceKw | enumKw
  | publicKw | privateKw | protectedKw | internalKw | staticKw | readonlyKw
  | sealedKw | abstractKw | virtualKw | overrideKw | constKw | newKw
  | externKw | unsafeKw | volatileKw | partialKw | asyncKw | thisKw
  | baseKw | nullKw | trueKw | falseKw | ifKw | elseKw
  | switchKw | caseKw | defaultKw | returnKw | throwKw | breakKw
  | continueKw | whileKw | doKw | forKw | foreachKw | inKw
  | tryKw | catchKw | finallyKw | isKw | asKw | outKw
  | refKw | paramsKw | typeofKw | voidKw | boolKw | byteKw
  | sbyteKw | shortKw | ushortKw | intKw | uintKw | longKw
  | ulongKw | charKw | floatKw | doubleKw | decimalKw | stringKw
  | objectKw
  -- Special tokens
  | endOfFile | errorToken
  -- Declarations
  | compilationUnit | usingDirective | namespaceDeclaration | name | classDeclaration
  | structDeclaration
  | interfaceDeclaration | enumDeclaration | attributeList | attributeSpec | typeParameterList
  | typeParameter
  | baseList | type | typeArgumentList | fieldDeclaration | variableDeclaration | variableDeclarator
  | equalsValueClause | methodDeclaration | constructorDeclaration | constructorInitializer
  | propertyDeclaration | accessorList
  | accessorDeclaration | parameterList | parameter | arrowExpressionClause | enumMemberDeclaration
  -- Statements
  | block | localDeclarationStatement | expressionStatement | ifStatement | elseClause
  | switchStatement
  | switchSection | caseSwitchLabel | defaultSwitchLabel | returnStatement | throwStatement
  | breakStatement
  | continueStatement | whileStatement | doStatement | forStatement | forEachStatement
  | usingStatement
  | tryStatement | catchClause | catchDeclaration | finallyClause | emptyStatement
  -- Expressions
  | literalExpression | identifierName | thisExpression | baseExpression | parenthesizedExpression
  | memberAccessExpression
  | invocationExpression | argumentList | argument | elementAccessExpression | bracketedArgumentList
  | objectCreationExpression
  | initializerExpression | binaryExpression | assignmentExpression | conditionalExpression
  | prefixUnaryExpression | postfixUnaryExpression
  | typeOfExpression | defaultExpression | lambdaExpression
  -- Recovery
  | error
deriving DecidableEq, Inhabited

namespace Kind

/-- All kinds, in declaration order. -/
def all : List Kind :=
  [.whitespace, .newline, .lineComment, .blockComment, .docComment, .ifDirective,
   .elifDirective, .elseDirective, .endIfDirective, .regionDirective, .endRegionDirective,
   .otherDirective,
   .lBrace, .rBrace, .lParen, .rParen, .lBracket, .rBracket,
   .semicolon, .comma, .dot, .colon, .question, .questionQuestion,
   .questionDot, .questionQuestionEq, .eq, .eqEq, .bangEq, .lt,
   .gt, .ltEq, .gtEq, .plus, .minus, .star,
   .slash, .percent, .bang, .tilde, .amp, .ampAmp,
   .pipe, .pipePipe, .caret, .ltLt, .plusPlus, .minusMinus,
   .plusEq, .minusEq, .starEq, .slashEq, .percentEq, .ampEq,
   .pipeEq, .caretEq, .ltLtEq, .fatArrow, .intLiteral, .realLiteral,
   .stringLiteral, .charLiteral, .ident, .usingKw, .namespaceKw, .classKw,
   .structKw, .interfaceKw, .enumKw, .publicKw, .privateKw, .protectedKw,
   .internalKw, .staticKw, .readonlyKw, .sealedKw, .abstractKw, .virtualKw,
   .overrideKw, .constKw, .newKw, .externKw, .unsafeKw, .volatileKw,
   .partialKw, .asyncKw, .thisKw, .baseKw, .nullKw, .trueKw,
   .falseKw, .ifKw, .elseKw, .switchKw, .caseKw, .defaultKw,
   .returnKw, .throwKw, .breakKw, .continueKw, .whileKw, .doKw,
   .forKw, .foreachKw, .inKw, .tryKw, .catchKw, .finallyKw,
   .isKw, .asKw, .outKw, .refKw, .paramsKw, .typeofKw,
   .voidKw, .boolKw, .byteKw, .sbyteKw, .shortKw, .ushortKw,
   .intKw, .uintKw, .longKw, .ulongKw, .charKw, .floatKw,
   .doubleKw, .decimalKw, .stringKw, .objectKw, .endOfFile, .errorToken,
   .compilationUnit, .usingDirective, .namespaceDeclaration, .name, .classDeclaration,
   .structDeclaration,
   .interfaceDeclaration, .enumDeclaration, .attributeList, .attributeSpec, .typeParameterList,
   .typeParameter,
   .baseList, .type, .typeArgumentList, .fieldDeclaration, .variableDeclaration,
   .variableDeclarator,
   .equalsValueClause, .methodDeclaration, .constructorDeclaration, .constructorInitializer,
   .propertyDeclaration, .accessorList,
   .accessorDeclaration, .parameterList, .parameter, .arrowExpressionClause, .enumMemberDeclaration,
   .block,
   .localDeclarationStatement, .expressionStatement, .ifStatement, .elseClause, .switchStatement,
   .switchSection,
   .caseSwitchLabel, .defaultSwitchLabel, .returnStatement, .throwStatement, .breakStatement,
   .continueStatement,
   .whileStatement, .doStatement, .forStatement, .forEachStatement, .usingStatement, .tryStatement,
   .catchClause, .catchDeclaration, .finallyClause, .emptyStatement, .literalExpression,
   .identifierName,
   .thisExpression, .baseExpression, .parenthesizedExpression, .memberAccessExpression,
   .invocationExpression, .argumentList,
   .argument, .elementAccessExpression, .bracketedArgumentList, .objectCreationExpression,
   .initializerExpression, .binaryExpression,
   .assignmentExpression, .conditionalExpression, .prefixUnaryExpression, .postfixUnaryExpression,
   .typeOfExpression, .defaultExpression,
   .lambdaExpression, .error]

/-- Position in `all`. -/
def raw (k : Kind) : Nat := k.ctorIdx

/-- The kind at a position of `all`; anything out of range is an error node. -/
def ofRaw (n : Nat) : Kind := all[n]?.getD .error

/-- The spelling of a kind in dumps and messages. -/
def label : Kind → String
  | .whitespace => "Whitespace"
  | .newline => "Newline"
  | .lineComment => "LineComment"
  | .blockComment => "BlockComment"
  | .docComment => "DocComment"
  | .ifDirective => "IfDirective"
  | .elifDirective => "ElifDirective"
  | .elseDirective => "ElseDirective"
  | .endIfDirective => "EndIfDirective"
  | .regionDirective => "RegionDirective"
  | .endRegionDirective => "EndRegionDirective"
  | .otherDirective => "OtherDirective"
  | .lBrace => "LBrace"
  | .rBrace => "RBrace"
  | .lParen => "LParen"
  | .rParen => "RParen"
  | .lBracket => "LBracket"
  | .rBracket => "RBracket"
  | .semicolon => "Semicolon"
  | .comma => "Comma"
  | .dot => "Dot"
  | .colon => "Colon"
  | .question => "Question"
  | .questionQuestion => "QuestionQuestion"
  | .questionDot => "QuestionDot"
  | .questionQuestionEq => "QuestionQuestionEq"
  | .eq => "Eq"
  | .eqEq => "EqEq"
  | .bangEq => "BangEq"
  | .lt => "Lt"
  | .gt => "Gt"
  | .ltEq => "LtEq"
  | .gtEq => "GtEq"
  | .plus => "Plus"
  | .minus => "Minus"
  | .star => "Star"
  | .slash => "Slash"
  | .percent => "Percent"
  | .bang => "Bang"
  | .tilde => "Tilde"
  | .amp => "Amp"
  | .ampAmp => "AmpAmp"
  | .pipe => "Pipe"
  | .pipePipe => "PipePipe"
  | .caret => "Caret"
  | .ltLt => "LtLt"
  | .plusPlus => "PlusPlus"
  | .minusMinus => "MinusMinus"
  | .plusEq => "PlusEq"
  | .minusEq => "MinusEq"
  | .starEq => "StarEq"
  | .slashEq => "SlashEq"
  | .percentEq => "PercentEq"
  | .ampEq => "AmpEq"
  | .pipeEq => "PipeEq"
  | .caretEq => "CaretEq"
  | .ltLtEq => "LtLtEq"
  | .fatArrow => "FatArrow"
  | .intLiteral => "IntLiteral"
  | .realLiteral => "RealLiteral"
  | .stringLiteral => "StringLiteral"
  | .charLiteral => "CharLiteral"
  | .ident => "Ident"
  | .usingKw => "UsingKw"
  | .namespaceKw => "NamespaceKw"
  | .classKw => "ClassKw"
  | .structKw => "StructKw"
  | .interfaceKw => "InterfaceKw"
  | .enumKw => "EnumKw"
  | .publicKw => "PublicKw"
  | .privateKw => "PrivateKw"
  | .protectedKw => "ProtectedKw"
  | .internalKw => "InternalKw"
  | .staticKw => "StaticKw"
  | .readonlyKw => "ReadonlyKw"
  | .sealedKw => "SealedKw"
  | .abstractKw => "AbstractKw"
  | .virtualKw => "VirtualKw"
  | .overrideKw => "OverrideKw"
  | .constKw => "ConstKw"
  | .newKw => "NewKw"
  | .externKw => "ExternKw"
  | .unsafeKw => "UnsafeKw"
  | .volatileKw => "VolatileKw"
  | .partialKw => "PartialKw"
  | .asyncKw => "AsyncKw"
  | .thisKw => "ThisKw"
  | .baseKw => "BaseKw"
  | .nullKw => "NullKw"
  | .trueKw => "TrueKw"
  | .falseKw => "FalseKw"
  | .ifKw => "IfKw"
  | .elseKw => "ElseKw"
  | .switchKw => "SwitchKw"
  | .caseKw => "CaseKw"
  | .defaultKw => "DefaultKw"
  | .returnKw => "ReturnKw"
  | .throwKw => "ThrowKw"
  | .breakKw => "BreakKw"
  | .continueKw => "ContinueKw"
  | .whileKw => "WhileKw"
  | .doKw => "DoKw"
  | .forKw => "ForKw"
  | .foreachKw => "ForeachKw"
  | .inKw => "InKw"
  | .tryKw => "TryKw"
  | .catchKw => "CatchKw"
  | .finallyKw => "FinallyKw"
  | .isKw => "IsKw"
  | .asKw => "AsKw"
  | .outKw => "OutKw"
  | .refKw => "RefKw"
  | .paramsKw => "ParamsKw"
  | .typeofKw => "TypeofKw"
  | .voidKw => "VoidKw"
  | .boolKw => "BoolKw"
  | .byteKw => "ByteKw"
  | .sbyteKw => "SbyteKw"
  | .shortKw => "ShortKw"
  | .ushortKw => "UshortKw"
  | .intKw => "IntKw"
  | .uintKw => "UintKw"
  | .longKw => "LongKw"
  | .ulongKw => "UlongKw"
  | .charKw => "CharKw"
  | .floatKw => "FloatKw"
  | .doubleKw => "DoubleKw"
  | .decimalKw => "DecimalKw"
  | .stringKw => "StringKw"
  | .objectKw => "ObjectKw"
  | .endOfFile => "EndOfFile"
  | .errorToken => "ErrorToken"
  | .compilationUnit => "CompilationUnit"
  | .usingDirective => "UsingDirective"
  | .namespaceDeclaration => "NamespaceDeclaration"
  | .name => "Name"
  | .classDeclaration => "ClassDeclaration"
  | .structDeclaration => "StructDeclaration"
  | .interfaceDeclaration => "InterfaceDeclaration"
  | .enumDeclaration => "EnumDeclaration"
  | .attributeList => "AttributeList"
  | .attributeSpec => "Attribute"
  | .typeParameterList => "TypeParameterList"
  | .typeParameter => "TypeParameter"
  | .baseList => "BaseList"
  | .type => "Type"
  | .typeArgumentList => "TypeArgumentList"
  | .fieldDeclaration => "FieldDeclaration"
  | .variableDeclaration => "VariableDeclaration"
  | .variableDeclarator => "VariableDeclarator"
  | .equalsValueClause => "EqualsValueClause"
  | .methodDeclaration => "MethodDeclaration"
  | .constructorDeclaration => "ConstructorDeclaration"
  | .constructorInitializer => "ConstructorInitializer"
  | .propertyDeclaration => "PropertyDeclaration"
  | .accessorList => "AccessorList"
  | .accessorDeclaration => "AccessorDeclaration"
  | .parameterList => "ParameterList"
  | .parameter => "Parameter"
  | .arrowExpressionClause => "ArrowExpressionClause"
  | .enumMemberDeclaration => "EnumMemberDeclaration"
  | .block => "Block"
  | .localDeclarationStatement => "LocalDeclarationStatement"
  | .expressionStatement => "ExpressionStatement"
  | .ifStatement => "IfStatement"
  | .elseClause => "ElseClause"
  | .switchStatement => "SwitchStatement"
  | .switchSection => "SwitchSection"
  | .caseSwitchLabel => "CaseSwitchLabel"
  | .defaultSwitchLabel => "DefaultSwitchLabel"
  | .returnStatement => "ReturnStatement"
  | .throwStatement => "ThrowStatement"
  | .breakStatement => "BreakStatement"
  | .continueStatement => "ContinueStatement"
  | .whileStatement => "WhileStatement"
  | .doStatement => "DoStatement"
  | .forStatement => "ForStatement"
  | .forEachStatement => "ForEachStatement"
  | .usingStatement => "UsingStatement"
  | .tryStatement => "TryStatement"
  | .catchClause => "CatchClause"
  | .catchDeclaration => "CatchDeclaration"
  | .finallyClause => "FinallyClause"
  | .emptyStatement => "EmptyStatement"
  | .literalExpression => "LiteralExpression"
  | .identifierName => "IdentifierName"
  | .thisExpression => "ThisExpression"
  | .baseExpression => "BaseExpression"
  | .parenthesizedExpression => "ParenthesizedExpression"
  | .memberAccessExpression => "MemberAccessExpression"
  | .invocationExpression => "InvocationExpression"
  | .argumentList => "ArgumentList"
  | .argument => "Argument"
  | .elementAccessExpression => "ElementAccessExpression"
  | .bracketedArgumentList => "BracketedArgumentList"
  | .objectCreationExpression => "ObjectCreationExpression"
  | .initializerExpression => "InitializerExpression"
  | .binaryExpression => "BinaryExpression"
  | .assignmentExpression => "AssignmentExpression"
  | .conditionalExpression => "ConditionalExpression"
  | .prefixUnaryExpression => "PrefixUnaryExpression"
  | .postfixUnaryExpression => "PostfixUnaryExpression"
  | .typeOfExpression => "TypeOfExpression"
  | .defaultExpression => "DefaultExpression"
  | .lambdaExpression => "LambdaExpression"
  | .error => "Error"

/-- The kind of a spelling. -/
def ofLabel? (word : String) : Option Kind := all.find? (·.label == word)

/-- Line, block and documentation comments. -/
def isComment : Kind → Bool
  | .lineComment | .blockComment | .docComment => true
  | _ => false

/-- Preprocessor directives, each a whole line. -/
def isDirective : Kind → Bool
  | .ifDirective | .elifDirective | .elseDirective | .endIfDirective | .regionDirective
  | .endRegionDirective | .otherDirective => true
  | _ => false

/-- Formatting-only tokens: blanks, line breaks, comments and directives. -/
def isTrivia (k : Kind) : Bool :=
  k = .whitespace || k = .newline || k.isComment || k.isDirective

/-- Reserved words. -/
def isKeyword (k : Kind) : Bool := Kind.usingKw.raw ≤ k.raw && k.raw ≤ Kind.objectKw.raw

/-- Keywords naming built-in types. -/
def isPredefinedType (k : Kind) : Bool :=
  Kind.voidKw.raw ≤ k.raw && k.raw ≤ Kind.objectKw.raw

/-- Keywords that may stand in front of a declaration. -/
def isModifier : Kind → Bool
  | .publicKw | .privateKw | .protectedKw | .internalKw | .staticKw
  | .readonlyKw | .sealedKw | .abstractKw | .virtualKw | .overrideKw
  | .constKw | .newKw | .externKw | .unsafeKw | .volatileKw
  | .partialKw | .asyncKw => true
  | _ => false

/-- Tokens that are expressions on their own. -/
def isLiteral : Kind → Bool
  | .intLiteral | .realLiteral | .stringLiteral | .charLiteral | .nullKw
  | .trueKw | .falseKw => true
  | _ => false

/-- Statement nodes. -/
def isStatement : Kind → Bool
  | .block | .localDeclarationStatement | .expressionStatement | .ifStatement | .switchStatement
  | .returnStatement | .throwStatement | .breakStatement | .continueStatement | .whileStatement
  | .doStatement | .forStatement | .forEachStatement | .usingStatement | .tryStatement
  | .emptyStatement => true
  | _ => false

/-- Declarations of a type. -/
def isTypeDeclaration : Kind → Bool
  | .classDeclaration | .structDeclaration | .interfaceDeclaration | .enumDeclaration => true
  | _ => false

/-- Declarations that may stand in a namespace or type body. -/
def isMemberDeclaration : Kind → Bool
  | .namespaceDeclaration | .fieldDeclaration | .methodDeclaration | .constructorDeclaration
  | .propertyDeclaration
  | .enumMemberDeclaration => true
  | k => k.isTypeDeclaration

/-- Nodes that stand for a value; a predefined type counts, since `string.Empty` has one as its
receiver. -/
def isExpression : Kind → Bool
  | .literalExpression | .identifierName | .thisExpression | .baseExpression
  | .parenthesizedExpression | .memberAccessExpression | .invocationExpression
  | .elementAccessExpression | .objectCreationExpression | .initializerExpression
  | .binaryExpression | .assignmentExpression | .conditionalExpression | .prefixUnaryExpression
  | .postfixUnaryExpression | .typeOfExpression | .defaultExpression | .lambdaExpression
  | .type => true
  | _ => false

/-- The classes of kinds, by name. -/
def classes : List (String × (Kind → Bool)) :=
  [("trivia", isTrivia), ("comment", isComment), ("keyword", isKeyword),
   ("predefined_type", isPredefinedType), ("modifier", isModifier), ("literal", isLiteral),
   ("statement", isStatement), ("type_declaration", isTypeDeclaration),
   ("member_declaration", isMemberDeclaration), ("expression", isExpression)]

end Kind

/-- The keyword spelled by a word, if it is reserved. -/
def keyword? : String → Option Kind
  | "using" => some .usingKw
  | "namespace" => some .namespaceKw
  | "class" => some .classKw
  | "struct" => some .structKw
  | "interface" => some .interfaceKw
  | "enum" => some .enumKw
  | "public" => some .publicKw
  | "private" => some .privateKw
  | "protected" => some .protectedKw
  | "internal" => some .internalKw
  | "static" => some .staticKw
  | "readonly" => some .readonlyKw
  | "sealed" => some .sealedKw
  | "abstract" => some .abstractKw
  | "virtual" => some .virtualKw
  | "override" => some .overrideKw
  | "const" => some .constKw
  | "new" => some .newKw
  | "extern" => some .externKw
  | "unsafe" => some .unsafeKw
  | "volatile" => some .volatileKw
  | "partial" => some .partialKw
  | "async" => some .asyncKw
  | "this" => some .thisKw
  | "base" => some .baseKw
  | "null" => some .nullKw
  | "true" => some .trueKw
  | "false" => some .falseKw
  | "if" => some .ifKw
  | "else" => some .elseKw
  | "switch" => some .switchKw
  | "case" => some .caseKw
  | "default" => some .defaultKw
  | "return" => some .returnKw
  | "throw" => some .throwKw
  | "break" => some .breakKw
  | "continue" => some .continueKw
  | "while" => some .whileKw
  | "do" => some .doKw
  | "for" => some .forKw
  | "foreach" => some .foreachKw
  | "in" => some .inKw
  | "try" => some .tryKw
  | "catch" => some .catchKw
  | "finally" => some .finallyKw
  | "is" => some .isKw
  | "as" => some .asKw
  | "out" => some .outKw
  | "ref" => some .refKw
  | "params" => some .paramsKw
  | "typeof" => some .typeofKw
  | "void" => some .voidKw
  | "bool" => some .boolKw
  | "byte" => some .byteKw
  | "sbyte" => some .sbyteKw
  | "short" => some .shortKw
  | "ushort" => some .ushortKw
  | "int" => some .intKw
  | "uint" => some .uintKw
  | "long" => some .longKw
  | "ulong" => some .ulongKw
  | "char" => some .charKw
  | "float" => some .floatKw
  | "double" => some .doubleKw
  | "decimal" => some .decimalKw
  | "string" => some .stringKw
  | "object" => some .objectKw
  | _ => none

end CodeMend
