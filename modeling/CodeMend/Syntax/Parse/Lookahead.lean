import CodeMend.Syntax.Parse.Step

/-!
# Looking further ahead

Where the next token does not settle what comes, the parser runs ahead over the kinds of the
significant tokens: over a type, to tell a declaration from an expression, and over parentheses, to
tell a lambda from a parenthesised expression.
-/

namespace CodeMend.Parse

/-- The kinds behind the rank specifiers `[]`, `[,]` … at the front. -/
def pastRanks : Nat → List Kind → List Kind
  | fuel + 1, .lBracket :: ks =>
    match ks.dropWhile (· == .comma) with
    | .rBracket :: rest => pastRanks fuel rest
    | _ => .lBracket :: ks
  | _, ks => ks

/-- The kinds behind the end of a type whose name has been passed. -/
def pastTypeSuffix (nullable : Bool) (ks : List Kind) : List Kind :=
  match nullable, ks with
  | true, .question :: rest => pastRanks rest.length rest
  | _, ks => pastRanks ks.length ks

/-- The kinds behind type arguments, if there are any; `past` tells how to pass them. -/
def pastOptional (past : List Kind → Option (List Kind)) : List Kind → Option (List Kind)
  | .lt :: rest => past rest
  | ks => some ks

mutual

/-- The kinds behind the type at the front; `none` if there is no type.  Each round passes a token,
so their number bounds the search. -/
def pastTypeIn : Nat → Bool → List Kind → Option (List Kind)
  | 0, _, _ => none
  | fuel + 1, nullable, ks =>
    match ks with
    | .ident :: rest => (pastNameIn fuel rest).map (pastTypeSuffix nullable)
    | k :: rest => if k.isPredefinedType then some (pastTypeSuffix nullable rest) else none
    | [] => none

/-- The kinds behind the type arguments and further parts of a dotted name. -/
def pastNameIn : Nat → List Kind → Option (List Kind)
  | 0, _ => none
  | fuel + 1, ks =>
    match pastOptional (pastTypeArgumentsIn fuel) ks with
    | some (.dot :: .ident :: rest) => pastNameIn fuel rest
    | found => found

/-- The kinds behind type arguments whose `<` has been passed. -/
def pastTypeArgumentsIn : Nat → List Kind → Option (List Kind)
  | 0, _ => none
  | fuel + 1, ks =>
    match pastTypeIn fuel true ks with
    | some (.comma :: rest) => pastTypeArgumentsIn fuel rest
    | some (.gt :: rest) => some rest
    | _ => none

end

/-- Enough rounds to pass any type at the front of the kinds. -/
def enough (ks : List Kind) : Nat := 3 * ks.length + 3

/-- The kinds behind the type that comes next, if one does. -/
def pastType (nullable : Bool) (ts : List Token) : Option (List Kind) :=
  pastTypeIn (enough (kinds ts)) nullable (kinds ts)

/-- Does a type come next? -/
def atType : Look := fun ts => (pastType true ts).isSome

/-- Do type arguments come next? -/
def atTypeArguments : Look := fun ts =>
  match kinds ts with
  | .lt :: rest => (pastTypeArgumentsIn (enough rest) rest).isSome
  | _ => false

/-- The start of a type: a predefined type or a name. -/
def startsType : Look := fun ts => (current ts).isPredefinedType || current ts == .ident

/-- Do a type and a name come next, and behind them `=`, `;` or `,`? -/
def atLocalDeclaration : Look := fun ts =>
  match pastType true ts with
  | some (.ident :: k :: _) => k == .eq || k == .semicolon || k == .comma
  | _ => false

/-- Do a type and a name come next? -/
def atTypedName (nullable : Bool) : Look := fun ts =>
  match pastType nullable ts with
  | some (.ident :: _) => true
  | _ => false

/-- Does the parenthesis that is open `depth` deep close right before an arrow?  A `;`, a `\x7b` or
the end of the file on the way says no. -/
def closesIntoArrow : Nat → List Kind → Bool
  | _, [] => false
  | depth, k :: ks =>
    match k with
    | .lParen => closesIntoArrow (depth + 1) ks
    | .rParen => if depth ≤ 1 then ks.head? == some .fatArrow else closesIntoArrow (depth - 1) ks
    | .endOfFile | .semicolon | .lBrace => false
    | _ => closesIntoArrow depth ks

/-- Does a lambda come next? -/
def atLambda : Look := fun ts =>
  match kinds ts with
  | .ident :: .fatArrow :: _ => true
  | .lParen :: rest => closesIntoArrow 1 rest
  | _ => false

/-- Can an expression start here? -/
def atExpression : Look := fun ts =>
  let k := current ts
  k.isLiteral || k.isPredefinedType ||
    [.ident, .thisKw, .baseKw, .lParen, .newKw, .typeofKw, .defaultKw, .lBrace, .bang, .minus,
     .plus, .tilde, .plusPlus, .minusMinus].contains k

/-- Does a `ref`, `out`, `in`, `params` or `this` come next? -/
def atParameterModifier : Look := fun ts =>
  [.refKw, .outKw, .inKw, .paramsKw, .thisKw].contains (current ts)

/-- Does a label of a switch section come next? -/
def atSwitchLabel : Look := fun ts =>
  current ts == .caseKw || (current ts == .defaultKw && nth 1 ts == .colon)

/-- Binary operators by how tightly they bind, loosest first. -/
def precedence? : Kind → Option Nat
  | .questionQuestion => some 1
  | .pipePipe => some 2
  | .ampAmp => some 3
  | .pipe => some 4
  | .caret => some 5
  | .amp => some 6
  | .eqEq | .bangEq => some 7
  | .lt | .gt | .ltEq | .gtEq | .isKw | .asKw => some 8
  | .ltLt => some 9
  | .plus | .minus => some 10
  | .star | .slash | .percent => some 11
  | _ => none

/-- How tightly a shift binds. -/
def shiftPrecedence : Nat := 9

/-- Do two `>` come next with nothing between them? -/
def atRightShift : Look := fun ts =>
  match ts.dropWhile (·.kind.isTrivia) with
  | a :: b :: _ => a.kind == .gt && b.kind == .gt
  | _ => false

/-- The binary operator that comes next: how tightly it binds and of how many tokens it is made. -/
def operator? (ts : List Token) : Option (Nat × Nat) :=
  if atRightShift ts then some (shiftPrecedence, 2)
  else (precedence? (current ts)).map (·, 1)

/-- Operators that assign. -/
def isAssignment (k : Kind) : Bool :=
  [.eq, .plusEq, .minusEq, .starEq, .slashEq, .percentEq, .ampEq, .pipeEq, .caretEq, .ltLtEq,
   .questionQuestionEq].contains k

end CodeMend.Parse
