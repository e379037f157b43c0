import CodeMend.Proofs.Parser.Congruence

/-!
# The grammar respects relations

A `Congruence` that relates the rules behind `self` and `self'` relates the phrases that refer to
them.  The lemmas stand in the order of the grammar, one for each definition; `phrase_congr` puts
them together, so that by induction on the depth what holds of the combinators holds of the parser.

Some nodes are asked for in `Inner` and `Ground` and not put together here, for a relation that says
something about what stands below them (`isShaped`): those that may declare a constant, those with
braces, statements, the labels of switch sections, binary expressions, member accesses, types, methods
and properties.

Statements, expressions and types never refer to members, so what they need (`Inner`) asks nothing
about declarations of types and of members of enumerations.
-/

namespace CodeMend.Parse

/-- One name of a declaration, with its value. -/
def declarator (self : Rule → Parser) : Parser :=
  either (ahead .ident) (node .variableDeclarator [bump, given (ahead .eq) (equalsValue self)])
    (complain "Expected a variable name")

/-- The nodes about which a relation may have something to say. -/
def isShaped : Kind → Bool
  | .variableDeclarator | .enumMemberDeclaration | .caseSwitchLabel | .defaultSwitchLabel
  | .namespaceDeclaration | .classDeclaration | .structDeclaration | .interfaceDeclaration
  | .enumDeclaration | .methodDeclaration | .propertyDeclaration | .binaryExpression
  | .memberAccessExpression | .type | .typeArgumentList => true
  | k => k.isStatement

/-- A relation may have something to say about every statement. -/
theorem isShaped_of_isStatement {k : Kind} (hk : k.isStatement = true) : isShaped k = true := by
  unfold isShaped
  split
  all_goals first | rfl | exact hk

/-- The statements that end with a semicolon of their own. -/
def simpleStatements : List Kind :=
  [.emptyStatement, .expressionStatement, .returnStatement, .throwStatement, .breakStatement,
    .continueStatement, .doStatement, .localDeclarationStatement]

/-- The statements that end with the statement that they lead to. -/
def leadingStatements : List Kind :=
  [.whileStatement, .forStatement, .forEachStatement, .usingStatement]

/-- What stands below a block. -/
def blockSteps (inner : Rule → Parser) : List Parser :=
  [bump,
   repeatWhile (fun ts => !ahead .rBrace ts && !atEnd ts)
     (orWhenStuck (inner .statement) (skip "Expected a statement")),
   expect .rBrace]

/-- What stands below a `switch`. -/
def switchSteps (inner : Rule → Parser) : List Parser :=
  [bump, condition inner, expect .lBrace,
   repeatWhile (fun ts => !ahead .rBrace ts && !atEnd ts)
     (either atSwitchLabel (switchSection inner) (skip "Expected 'case' or 'default'")),
   expect .rBrace]

/-- What stands below a label with a value. -/
def caseSteps (inner : Rule → Parser) : List Parser := [bump, inner .expression, expect .colon]

/-- What stands below an `if`. -/
def ifSteps (inner : Rule → Parser) : List Parser :=
  [bump, condition inner, embedded inner,
   given (ahead .elseKw) (node .elseClause [bump, embedded inner])]

/-- What stands below a `try`. -/
def trySteps (inner : Rule → Parser) : List Parser :=
  [bump, requiredBlock inner, repeatWhile (ahead .catchKw) (catchClause inner),
   given (ahead .finallyKw) (node .finallyClause [bump, requiredBlock inner])]

/-- What a relation asks of statements and of the labels of a `switch`. -/
structure Shapes (F : Kind → Parser → Prop) (inner : Rule → Parser) : Prop where
  switchStatement : F .switchStatement (all (switchSteps inner))
  caseLabel : F .caseSwitchLabel (all (caseSteps inner))
  defaultLabel : F .defaultSwitchLabel (all [bump, expect .colon])
  simple : ∀ k ∈ simpleStatements, ∀ lead, F k (all (lead ++ [expect .semicolon]))
  leading : ∀ k ∈ leadingStatements, ∀ lead, F k (all (lead ++ [embedded inner]))
  ifStatement : F .ifStatement (all (ifSteps inner))
  tryStatement : F .tryStatement (all (trySteps inner))

/-- The nodes of which `Shapes` speaks. -/
def shapedInside : List Kind :=
  [.switchStatement, .caseSwitchLabel, .defaultSwitchLabel, .ifStatement, .tryStatement] ++
    simpleStatements ++ leadingStatements

/-- A relation with nothing to say about these nodes asks nothing of them. -/
theorem Shapes.of_free {F : Kind → Parser → Prop} (hF : ∀ k ∈ shapedInside, ∀ p, F k p)
    (inner : Rule → Parser) : Shapes F inner where
  switchStatement := hF _ (by decide) _
  caseLabel := hF _ (by decide) _
  defaultLabel := hF _ (by decide) _
  simple k hk _ := hF k (by simp [shapedInside, hk]) _
  leading k hk _ := hF k (by simp [shapedInside, hk]) _
  ifStatement := hF _ (by decide) _
  tryStatement := hF _ (by decide) _

/-- What a relation asks of the declarations of types, methods and properties. -/
structure DeclarationShapes (F : Kind → Parser → Prop) (inner : Rule → Parser) : Prop where
  classDeclaration : F .classDeclaration (typeDeclaration inner)
  structDeclaration : F .structDeclaration (typeDeclaration inner)
  interfaceDeclaration : F .interfaceDeclaration (typeDeclaration inner)
  enumDeclaration : F .enumDeclaration (enumDeclaration inner)
  methodDeclaration : F .methodDeclaration (method inner)
  propertyDeclaration : F .propertyDeclaration (property inner)

/-- The steps of which the grammar asks whether they were stuck. -/
structure Stands (S : Standing → Parser → Prop) (inner : Rule → Parser) : Prop where
  statement : S .steady (inner .statement)
  expression : S .steady (inner .expression)
  lambdaParameter : S .steady (lambdaParameter inner)
  enumMember : S .steady
    (given (fun ts => ahead .ident ts || ahead .lBracket ts) (enumMember inner))
  parameter : S .steady (parameter inner)
  lead : S .steady (all [attributeLists inner, modifiers])
  statements : S .drifting (inner .statement)
  members : ∀ enclosing, S .drifting (inner (.member enclosing))
  accessors : S .drifting (accessor inner)

/-- Nothing is asked where no step has to stand in any way. -/
theorem stands_trivial (inner : Rule → Parser) : Stands (fun _ _ => True) inner :=
  ⟨trivial, trivial, trivial, trivial, trivial, trivial, trivial, fun _ => trivial, trivial⟩

/-- What the grammar needs of the rules to which it refers. -/
structure Rules (R : Parser → Parser → Prop) (F : Kind → Parser → Prop)
    (inner inner' : Rule → Parser) : Prop where
  rule : ∀ r, R (inner r) (inner' r)
  free : ∀ k, isShaped k = false → ∀ p, F k p

/-- What statements, expressions and types need besides: the nodes about which the relation has
something to say, and the steps that may be stuck. -/
structure Inner (R : Parser → Parser → Prop) (F : Kind → Parser → Prop)
    (S : Standing → Parser → Prop) (inner inner' : Rule → Parser) : Prop
    extends Rules R F inner inner' where
  shapes : Shapes F inner
  block : R (block inner) (block inner')
  binary : ∀ level, R (binaryPhrase inner level) (binaryPhrase inner' level)
  suffix : R (suffixPhrase inner) (suffixPhrase inner')
  type : R (typePhrase inner) (typePhrase inner')
  declarator : R (declarator inner) (declarator inner')
  stands : Stands S inner
  stands' : Stands S inner'

/-- What members need besides. -/
structure Outer (R : Parser → Parser → Prop) (F : Kind → Parser → Prop)
    (S : Standing → Parser → Prop) (inner inner' : Rule → Parser) : Prop
    extends Inner R F S inner inner' where
  enumMember : R (enumMember inner) (enumMember inner')
  namespaceDeclaration : R (given (ahead .namespaceKw) (namespaceDeclaration inner))
    (given (ahead .namespaceKw) (namespaceDeclaration inner'))

/-- What the whole grammar needs: declarations are related with the attributes and modifiers before
them. -/
structure Ground (R : Parser → Parser → Prop) (F : Kind → Parser → Prop)
    (S : Standing → Parser → Prop) (inner inner' : Rule → Parser) : Prop
    extends Outer R F S inner inner' where
  declared : ∀ enclosing, R (declared inner enclosing) (declared inner' enclosing)

section Grammar

variable {R : Parser → Parser → Prop} {F : Kind → Parser → Prop}
variable {S : Standing → Parser → Prop}
variable {self self' : Rule → Parser}

/-- Nodes of a kind about which nothing is said are related if what stands below them is. -/
theorem Rules.node (g : Rules R F self self') (C : Congruence R F S) {k : Kind}
    {ps ps' : List Parser} (hk : isShaped k = false) (hps : R (all ps) (all ps')) :
    R (node k ps) (node k ps') := node_congr C (g.free k hk _) hps

/-- Parsers that are picked with such a kind are alike if they are related. -/
theorem Rules.alike (g : Rules R F self self') {k : Kind} {p p' : Parser}
    (hk : isShaped k = false) (hp : R p p') :
    Alike R F (some (k, p)) (some (k, p')) := ⟨rfl, g.free k hk p, hp⟩

/-- A token in front of related sequences. -/
theorem bump_congr (C : Congruence R F S) {ps ps' : List Parser} (hps : R (all ps) (all ps')) :
    R (all (bump :: ps)) (all (bump :: ps')) := cons_congr C C.bump hps

/-- A step that ends a sequence. -/
theorem last_congr (C : Congruence R F S) {p p' : Parser} (hp : R p p') : R (all [p]) (all [p']) :=
  cons_congr C hp (nil_congr C)

/-! ### Names and types -/

/-- Two tokens are related to themselves. -/
theorem bumps_congr (C : Congruence R F S) : R (all [bump, bump]) (all [bump, bump]) :=
  bump_congr C (last_congr C C.bump)

/-- A dotted name refers to no rule. -/
theorem name_congr (C : Congruence R F S) (g : Rules R F self self') : R name name :=
  either_congr C (.ahead .ident)
    (g.node C rfl (bump_congr C (last_congr C (repeatWhile_congr C
      ((Blind.ahead .dot).and (.aheadAt 1 .ident)) (bumps_congr C)))))
    (C.complain _)

/-- Type arguments are related if types are. -/
theorem typeArguments_congr (C : Congruence R F S) (hF : ∀ p, F .typeArgumentList p)
    (htype : R (self .type) (self' .type)) : R (typeArguments self) (typeArguments self') :=
  node_congr C (hF _) (bump_congr C (cons_congr C (separated_congr C htype)
    (last_congr C (expect_congr C))))

/-- The brackets of an array type refer to no rule. -/
theorem rank_congr (C : Congruence R F S) : R rank rank :=
  bump_congr C (cons_congr C (repeatWhile_congr C (.ahead .comma) C.bump)
    (last_congr C (expect_congr C)))

/-- The type arguments and the dotted names behind a name are related if types are. -/
theorem typeNameTail_congr (C : Congruence R F S) (hF : ∀ p, F .typeArgumentList p)
    (htype : R (self .type) (self' .type)) : R (typeNameTail self) (typeNameTail self') := by
  have hturn : ∀ arguments : Parser, (fun ts =>
      let s := arguments ts
      if ahead .dot s.rest && aheadAt 1 .ident s.rest then
        Turn.mk (s.andThen (all [bump, bump])) true
      else ⟨s, false⟩) =
      turnOf (fun _ => ()) (fun _ => arguments)
        (fun ts => ahead .dot ts && aheadAt 1 .ident ts)
        (fun _ _ dotted => if dotted then all [bump, bump] else done)
        (fun _ _ dotted => dotted) := by
    intro arguments
    funext ts
    simp only [turnOf]
    by_cases hdot : (ahead .dot (arguments ts).rest && aheadAt 1 .ident (arguments ts).rest) = true
    · simp [hdot]
    · simp [hdot, Step.andThen_done]
  simp only [typeNameTail, hturn]
  refine C.loop (.const true) (.const _) ((Blind.ahead .dot).and (.aheadAt 1 .ident))
    (fun _ => given_congr C .atTypeArguments (typeArguments_congr C hF htype)) (fun _ _ dotted => ?_)
    (Or.inr fun _ _ => ⟨rfl, rfl, rfl⟩)
  cases dotted with
  | true => exact bumps_congr C
  | false => exact C.done

/-- A type refers to nothing but types. -/
theorem typePhrase_congr (C : Congruence R F S) (hF : ∀ p, F .type p)
    (hArguments : ∀ p, F .typeArgumentList p) (htype : R (self .type) (self' .type)) :
    R (typePhrase self) (typePhrase self') := by
  have hsuffix := cons_congr C (eat_congr C (k := .question)) (last_congr C (repeatWhile_congr C
    ((Blind.ahead .lBracket).and ((Blind.aheadAt 1 .rBracket).or (.aheadAt 1 .comma)))
    (rank_congr C)))
  exact either_congr C (.ahead .ident)
    (node_congr C (hF _) (bump_congr C (cons_congr C (typeNameTail_congr C hArguments htype)
      (last_congr C hsuffix))))
    (either_congr C .startsType (node_congr C (hF _) (bump_congr C (last_congr C hsuffix)))
      (C.complain _))

/-! ### Arguments -/

/-- An argument refers to the type it may declare and to its expression. -/
theorem argument_congr (C : Congruence R F S) (g : Rules R F self self') :
    R (argument self) (argument self') := by
  have hmodified := given_congr C .atArgumentModifier
    (bump_congr C (last_congr C (given_congr C (.atTypedName false) (g.rule .type))))
  have hlead := either_congr C ((Blind.ahead .ident).and (.aheadAt 1 .colon)) (bumps_congr C)
    hmodified
  exact g.node C rfl (cons_congr C hlead (last_congr C (g.rule .expression)))

/-- Arguments are related turn by turn, since each turn looks for the closing bracket or an
argument at the same tokens. -/
theorem arguments_congr (C : Congruence R F S) (g : Rules R F self self') (closing : Kind) :
    R (arguments self closing) (arguments self' closing) := by
  have hturn : ∀ inner : Rule → Parser, (fun ts =>
      if atArgument ts then commaTurn (argument inner) (fun _ => stop done) ts
      else stop (complain "Expected an argument") ts) =
      turnOf atArgument
        (fun starts => if starts then argument inner else complain "Expected an argument")
        (ahead .comma) (fun starts _ comma => if starts && comma then bump else done)
        (fun starts _ comma => starts && comma) := by
    intro inner
    funext ts
    simp only [turnOf, commaTurn, stop]
    cases atArgument ts with
    | true =>
        by_cases hcomma : ahead .comma (argument inner ts).rest = true
        · simp [hcomma]
        · simp [hcomma]
          rfl
    | false => simp [Step.andThen_done]
  simp only [arguments, hturn]
  refine C.loop ((Blind.ahead closing).not.and Blind.atEnd.not) .atArgument (.ahead .comma)
    (fun starts => ?_) (fun starts _ comma => ?_) (Or.inr fun _ _ => ⟨rfl, rfl, rfl⟩)
  · cases starts with
    | true => exact argument_congr C g
    | false => exact C.complain _
  · cases starts && comma with
    | true => exact C.bump
    | false => exact C.done

/-- Arguments in parentheses. -/
theorem argumentList_congr (C : Congruence R F S) (g : Rules R F self self') :
    R (argumentList self) (argumentList self') :=
  g.node C rfl (bump_congr C (cons_congr C (arguments_congr C g _) (last_congr C (expect_congr C))))

/-- Arguments in brackets. -/
theorem bracketedArgumentList_congr (C : Congruence R F S) (g : Rules R F self self') :
    R (bracketedArgumentList self) (bracketedArgumentList self') :=
  g.node C rfl (bump_congr C (cons_congr C (arguments_congr C g _) (last_congr C (expect_congr C))))

/-- Attributes refer to their arguments only. -/
theorem attributeList_congr (C : Congruence R F S) (g : Rules R F self self') :
    R (attributeList self) (attributeList self') := by
  have hitem := either_congr C (.ahead .ident)
    (g.node C rfl (k := .attributeSpec) (cons_congr C (name_congr C g)
      (last_congr C (given_congr C (.ahead .lParen) (argumentList_congr C g)))))
    (C.complain "Expected an attribute")
  exact g.node C rfl (bump_congr C (cons_congr C (separated_congr C hitem)
    (last_congr C (expect_congr C))))

/-- Attributes are repeated while a bracket is ahead. -/
theorem attributeLists_congr (C : Congruence R F S) (g : Rules R F self self') :
    R (attributeLists self) (attributeLists self') :=
  repeatWhile_congr C (.ahead .lBracket) (attributeList_congr C g)

/-- Modifiers are tokens. -/
theorem modifiers_congr (C : Congruence R F S) : R modifiers modifiers :=
  repeatWhile_congr C (Blind.current.map Kind.isModifier) C.bump

/-! ### Expressions -/

/-- Whether a closing token is still to come does not depend on trivia. -/
theorem open_blind (k : Kind) : Blind (fun ts => !ahead k ts && !atEnd ts) :=
  (Blind.ahead k).not.and Blind.atEnd.not

/-- The elements of an initializer, with what is skipped where an expression is stuck. -/
theorem initializer_congr (C : Congruence R F S) (g : Rules R F self self')
    (hs : Stands S self) (hs' : Stands S self') :
    R (initializer self) (initializer self') := by
  have hmissing : (fun stuck : Bool =>
      if stuck then goOn (skip "Expected an initializer element") else stop done) =
      fun stuck ts => Turn.mk
        ((if stuck then skip "Expected an initializer element" else done) ts) stuck := by
    funext stuck ts
    cases stuck <;> rfl
  refine g.node C rfl (bump_congr C (cons_congr C ?_ (last_congr C (expect_congr C))))
  rw [hmissing]
  refine commaLoop_congr C (fun _ => ())
    (fun stuck _ => if stuck then skip "Expected an initializer element" else done)
    (fun stuck _ => stuck) (open_blind .rBrace) (.const _) (g.rule .expression)
    (fun stuck _ => ?_) (Or.inl ⟨hs.expression, hs'.expression⟩)
  cases stuck with
  | true => exact skip_congr C (g.free _ rfl _) _
  | false => exact C.done

/-- The creation of an object or an array. -/
theorem objectCreation_congr (C : Congruence R F S) (g : Rules R F self self')
    (hs : Stands S self) (hs' : Stands S self') :
    R (objectCreation self) (objectCreation self') :=
  g.node C rfl (bump_congr C (cons_congr C (given_congr C .startsType (g.rule .type))
    (cons_congr C (given_congr C (.ahead .lBracket) (bracketedArgumentList_congr C g))
      (cons_congr C (given_congr C (.ahead .lParen) (argumentList_congr C g))
        (last_congr C (given_congr C (.ahead .lBrace) (initializer_congr C g hs hs')))))))

/-- A name is a node with one token. -/
theorem identifierName_congr (C : Congruence R F S) (g : Rules R F self self') :
    R identifierName identifierName := g.node C rfl (last_congr C C.bump)

/-- The primary expressions of a kind exist together and are related. -/
theorem primary_congr (C : Congruence R F S) (g : Rules R F self self') (hs : Stands S self)
    (hs' : Stands S self') (k : Kind) :
    (primary? self k = none ∧ primary? self' k = none) ∨
      ∃ p p', primary? self k = some p ∧ primary? self' k = some p' ∧ R p p' := by
  have hparens := g.node C rfl (k := .parenthesizedExpression) (bump_congr C (cons_congr C
    (g.rule .expression) (last_congr C (expect_congr C (k := .rParen)))))
  have htype := cons_congr C (g.rule .type) (last_congr C (expect_congr C (k := .rParen)))
  unfold primary?
  split
  · exact Or.inr ⟨_, _, rfl, rfl, g.node C rfl (last_congr C C.bump)⟩
  split
  · exact Or.inr ⟨_, _, rfl, rfl, g.rule .type⟩
  split
  · exact Or.inr ⟨_, _, rfl, rfl, identifierName_congr C g⟩
  · exact Or.inr ⟨_, _, rfl, rfl, g.node C rfl (last_congr C C.bump)⟩
  · exact Or.inr ⟨_, _, rfl, rfl, g.node C rfl (last_congr C C.bump)⟩
  · exact Or.inr ⟨_, _, rfl, rfl, hparens⟩
  · exact Or.inr ⟨_, _, rfl, rfl, objectCreation_congr C g hs hs'⟩
  · exact Or.inr ⟨_, _, rfl, rfl, g.node C rfl (bump_congr C (cons_congr C (expect_congr C) htype))⟩
  · exact Or.inr ⟨_, _, rfl, rfl, g.node C rfl (bump_congr C (last_congr C
      (given_congr C (.ahead .lParen) (bump_congr C htype))))⟩
  · exact Or.inr ⟨_, _, rfl, rfl, initializer_congr C g hs hs'⟩
  · exact Or.inl ⟨rfl, rfl⟩

/-- How a primary expression goes on where a token of kind `k` is next. -/
def suffixFor (inner : Rule → Parser) (k : Kind) : Option (Kind × List Parser) :=
  match k with
  | .dot | .questionDot =>
    some (.memberAccessExpression,
      [bump, either (ahead .ident) identifierName (complain "Expected a member name")])
  | .lParen => some (.invocationExpression, [argumentList inner])
  | .lBracket => some (.elementAccessExpression, [bracketedArgumentList inner])
  | .plusPlus | .minusMinus => some (.postfixUnaryExpression, [bump])
  | _ => none

/-- What follows an operand is told by one kind, and for each kind the parts are related. -/
theorem suffixFor_congr (C : Congruence R F S) (g : Rules R F self self')
    (hF : ∀ p, F .memberAccessExpression p) (k : Kind) :
    Alike R F ((suffixFor self k).map fun x => (x.1, all x.2))
      ((suffixFor self' k).map fun x => (x.1, all x.2)) := by
  have hmember := bump_congr C (last_congr C (either_congr C (.ahead .ident)
    (identifierName_congr C g) (C.complain "Expected a member name")))
  unfold suffixFor
  split
  · exact ⟨rfl, hF _, hmember⟩
  · exact ⟨rfl, hF _, hmember⟩
  · exact g.alike rfl (k := .invocationExpression) (last_congr C (argumentList_congr C g))
  · exact g.alike rfl (k := .elementAccessExpression) (last_congr C (bracketedArgumentList_congr C g))
  · exact g.alike rfl (k := .postfixUnaryExpression) (last_congr C C.bump)
  · exact g.alike rfl (k := .postfixUnaryExpression) (last_congr C C.bump)
  · trivial

/-- An operand with what follows it, told by the kind of its first token. -/
def operandFor (self : Rule → Parser) (k : Kind) : Parser :=
  (primary? self k).elim (complain "Expected an expression") fun p => wrapped p (suffix? self)

/-- An operand with its suffixes: the operand and every suffix are told by the kind that is
ahead. -/
theorem suffixPhrase_congr (C : Congruence R F S) (g : Rules R F self self')
    (hF : ∀ p, F .memberAccessExpression p) (hs : Stands S self) (hs' : Stands S self') :
    R (suffixPhrase self) (suffixPhrase self') := by
  have hoperand (self : Rule → Parser) : suffixPhrase self =
      all [flush, fun ts => operandFor self (current ts) ts] := by
    unfold suffixPhrase
    refine congrArg (fun p => all [flush, p]) (funext fun ts => ?_)
    unfold operandFor
    cases primary? self (current ts) <;> rfl
  rw [hoperand, hoperand]
  refine cons_congr C C.flush (last_congr C ?_)
  refine C.choose (l := current) (f := operandFor self) (g := operandFor self') .current fun k => ?_
  rcases primary_congr C g hs hs' k with ⟨hnone, hnone'⟩ | ⟨p, p', hp, hp', hrelated⟩
  · simp only [operandFor, hnone, hnone']
    exact C.complain _
  · simp only [operandFor, hp, hp']
    exact C.wrap (l := current) (f := suffixFor self) (g := suffixFor self') .current
      hrelated (suffixFor_congr C g hF)

/-- An operand with or without an operator in front of it. -/
theorem unaryPhrase_congr (C : Congruence R F S) (g : Inner R F S self self') :
    R (unaryPhrase self) (unaryPhrase self') := by
  have hlook : Blind (fun ts => [Kind.bang, .minus, .plus, .tilde, .plusPlus,
      .minusMinus].contains (current ts)) :=
    Blind.current.map fun k => [Kind.bang, .minus, .plus, .tilde, .plusPlus, .minusMinus].contains k
  exact either_congr C hlook (g.node C rfl (bump_congr C (last_congr C (g.rule .unary))))
    g.suffix

/-- How a binary expression goes on, told by its operator and the kind of its first token. -/
def binaryFor (inner : Rule → Parser) (level : Nat) :
    Option (Nat × Nat) × Kind → Option (Kind × List Parser)
  | (none, _) => none
  | (some (precedence, width), operator) =>
    let right := either
      (fun ts => (operator == .isKw || operator == .asKw) && startsType ts && !aheadAt 1 .dot ts)
      (inner .type)
      (either (fun _ => operator == .questionQuestion) (inner (.binary precedence))
        (inner (.binary (precedence + 1))))
    if level ≤ precedence then some (.binaryExpression, List.replicate width bump ++ [right])
    else none

/-- Whether a binary expression goes on depends on its operator and the next kind only. -/
theorem binary_eq (inner : Rule → Parser) (level : Nat) :
    binary? inner level = fun ts => binaryFor inner level (operator? ts, current ts) := by
  funext ts
  unfold binary?
  cases operator? ts with
  | none => rfl
  | some found =>
      show (if level ≤ found.1 then some () else none : Option Unit).bind _ = _
      by_cases hlevel : level ≤ found.1
      · simp only [binaryFor, if_pos hlevel]
        rfl
      · simp only [binaryFor, if_neg hlevel]
        rfl

/-- The tokens of an operator in front of related operands. -/
theorem replicate_bump_congr (C : Congruence R F S) {p p' : Parser} (hp : R p p') (width : Nat) :
    R (all (List.replicate width bump ++ [p])) (all (List.replicate width bump ++ [p'])) := by
  induction width with
  | zero => exact last_congr C hp
  | succ n ih => exact bump_congr C ih

/-- Right operands are related: a type, an operand on the same level for `??`, and one level up
otherwise. -/
theorem binaryFor_congr (C : Congruence R F S) (g : Rules R F self self')
    (hF : ∀ p, F .binaryExpression p) (level : Nat) (x : Option (Nat × Nat) × Kind) :
    Alike R F ((binaryFor self level x).map fun x => (x.1, all x.2))
      ((binaryFor self' level x).map fun x => (x.1, all x.2)) := by
  rcases x with ⟨_ | ⟨precedence, width⟩, operator⟩
  · trivial
  · have hlook : Blind (fun ts => (operator == .isKw || operator == .asKw) && startsType ts
        && !aheadAt 1 .dot ts) :=
      ((Blind.const _).and .startsType).and (Blind.aheadAt 1 .dot).not
    have hright := either_congr C hlook (g.rule .type)
      (either_congr C (.const (operator == .questionQuestion)) (g.rule (.binary precedence))
        (g.rule (.binary (precedence + 1))))
    simp only [binaryFor]
    split
    · exact ⟨rfl, hF _, replicate_bump_congr C hright width⟩
    · trivial

/-- Binary expressions are related at every level. -/
theorem binaryPhrase_congr (C : Congruence R F S) (g : Rules R F self self')
    (hF : ∀ p, F .binaryExpression p) (level : Nat) :
    R (binaryPhrase self level) (binaryPhrase self' level) := by
  simp only [binaryPhrase, binary_eq]
  exact cons_congr C C.flush (last_congr C (C.wrap (Blind.operator.pair .current) (g.rule .unary)
    (binaryFor_congr C g hF level)))

/-- A condition with or without the two branches behind it. -/
theorem conditional_congr (C : Congruence R F S) (g : Inner R F S self self') :
    R (conditional self) (conditional self') :=
  cons_congr C C.flush (last_congr C (C.extend (.ahead .question)
    (g.free _ rfl _) (g.rule (.binary 0))
    (bump_congr C (cons_congr C (g.rule .expression) (cons_congr C (expect_congr C)
      (last_congr C (g.rule .expression)))))))

/-! ### Statements -/

/-- A block repeats statements and skips where one is stuck. -/
theorem block_congr (C : Congruence R F S) (g : Rules R F self self')
    (hF : F .block (all (blockSteps self))) (hs : Stands S self) (hs' : Stands S self') :
    R (block self) (block self') :=
  node_congr C hF (bump_congr C (cons_congr C
    (C.recover _ (open_blind .rBrace) hs.statements hs'.statements (g.rule .statement))
    (last_congr C (expect_congr C))))

/-- A block or the complaint about it. -/
theorem requiredBlock_congr (C : Congruence R F S) (g : Inner R F S self self') :
    R (requiredBlock self) (requiredBlock self') :=
  either_congr C (.ahead .lBrace) g.block (C.complain _)

/-- A parameter of a lambda has a type and a name. -/
theorem lambdaParameter_congr (C : Congruence R F S) (g : Inner R F S self self') :
    R (lambdaParameter self) (lambdaParameter self') :=
  g.node C rfl (cons_congr C (given_congr C (.atTypedName true) (g.rule .type))
    (last_congr C (expect_congr C)))

/-- The parameters of a lambda, with what is skipped where one is stuck. -/
theorem lambdaParameters_congr (C : Congruence R F S) (g : Inner R F S self self') :
    R (lambdaParameters self) (lambdaParameters self') := by
  refine g.node C rfl (bump_congr C (cons_congr C ?_ (last_congr C (expect_congr C))))
  refine commaLoop_congr C (fun _ => ())
    (fun stuck _ => if stuck then skip "Expected a parameter" else done)
    (fun _ _ => false) (open_blind .rParen) (.const _) (lambdaParameter_congr C g)
    (fun stuck _ => ?_) (Or.inl ⟨g.stands.lambdaParameter, g.stands'.lambdaParameter⟩)
  cases stuck with
  | true => exact skip_congr C (g.free _ rfl _) _
  | false => exact C.done

/-- A lambda has parameters, an arrow and a body. -/
theorem lambda_congr (C : Congruence R F S) (g : Inner R F S self self') :
    R (lambda self) (lambda self') :=
  g.node C rfl (cons_congr C (either_congr C (.ahead .ident) (g.node C rfl (last_congr C C.bump))
      (lambdaParameters_congr C g))
    (cons_congr C (expect_congr C) (last_congr C (either_congr C (.ahead .lBrace)
      g.block (g.rule .expression)))))

/-- An expression is a complaint, a lambda or a conditional that may be assigned to. -/
theorem expressionPhrase_congr (C : Congruence R F S) (g : Inner R F S self self') :
    R (expressionPhrase self) (expressionPhrase self') :=
  either_congr C Blind.atExpression.not (C.complain _) (either_congr C .atLambda (lambda_congr C g)
    (cons_congr C C.flush (last_congr C (C.extend (Blind.current.map isAssignment)
      (g.free _ rfl _) (conditional_congr C g)
      (bump_congr C (last_congr C (g.rule .expression)))))))

/-- The value behind an equals sign. -/
theorem equalsValue_congr (C : Congruence R F S) (g : Rules R F self self') :
    R (equalsValue self) (equalsValue self') :=
  g.node C rfl (bump_congr C (last_congr C (g.rule .expression)))

/-- A type with its declarators. -/
theorem variableDeclaration_congr (C : Congruence R F S) (g : Inner R F S self self') :
    R (variableDeclaration self) (variableDeclaration self') :=
  g.node C rfl (cons_congr C (g.rule .type) (last_congr C (separated_congr C g.declarator)))

/-- A condition in parentheses. -/
theorem condition_congr (C : Congruence R F S) (g : Inner R F S self self') :
    R (condition self) (condition self') :=
  cons_congr C (expect_congr C) (cons_congr C (g.rule .expression)
    (last_congr C (expect_congr C)))

/-- The statement inside another one, or the complaint where it is stuck. -/
theorem embedded_congr (C : Congruence R F S) (g : Inner R F S self self') :
    R (embedded self) (embedded self') :=
  C.retry g.stands.statement g.stands'.statement (g.rule .statement) (C.complain _)

/-- The expressions in the head of a loop. -/
theorem expressionList_congr (C : Congruence R F S) (g : Inner R F S self self')
    (closing : Kind) : R (expressionList self closing) (expressionList self' closing) :=
  items_congr C ((Blind.ahead closing).not.and .atExpression) (g.rule .expression)

/-- A statement that ends with a semicolon of its own. -/
theorem simple_congr (C : Congruence R F S) (g : Inner R F S self self') {k : Kind}
    (hk : k ∈ simpleStatements) (lead : List Parser) {ps : List Parser}
    (h : R (all (lead ++ [expect .semicolon])) (all ps)) :
    R (node k (lead ++ [expect .semicolon])) (node k ps) :=
  node_congr C (g.shapes.simple k hk lead) h

/-- A statement that ends with the statement that it leads to. -/
theorem leading_congr (C : Congruence R F S) (g : Inner R F S self self') {k : Kind}
    (hk : k ∈ leadingStatements) (lead : List Parser) {ps : List Parser}
    (h : R (all (lead ++ [embedded self])) (all ps)) :
    R (node k (lead ++ [embedded self])) (node k ps) :=
  node_congr C (g.shapes.leading k hk lead) h

/-- A return or a throw, with or without a value. -/
theorem valueJump_congr (C : Congruence R F S) (g : Inner R F S self self') {k : Kind}
    (hk : k ∈ simpleStatements) : R (valueJump self k) (valueJump self' k) :=
  simple_congr C g hk [_, _] (bump_congr C (cons_congr C
    (given_congr C (Blind.ahead .semicolon).not (g.rule .expression))
    (last_congr C (expect_congr C))))

/-- A break or a continue. -/
theorem plainJump_congr (C : Congruence R F S) (g : Inner R F S self self') {k : Kind}
    (hk : k ∈ simpleStatements) : R (plainJump k) (plainJump k) :=
  simple_congr C g hk [_] (bump_congr C (last_congr C (expect_congr C)))

/-- A label with a value or without one. -/
theorem switchLabel_congr (C : Congruence R F S) (g : Inner R F S self self') :
    R (switchLabel self) (switchLabel self') :=
  either_congr C (.ahead .caseKw)
    (node_congr C g.shapes.caseLabel (bump_congr C (cons_congr C (g.rule .expression)
      (last_congr C (expect_congr C)))))
    (node_congr C g.shapes.defaultLabel (bump_congr C (last_congr C (expect_congr C))))

/-- Labels and the statements behind them. -/
theorem switchSection_congr (C : Congruence R F S) (g : Inner R F S self self') :
    R (switchSection self) (switchSection self') :=
  g.node C rfl (cons_congr C (repeatWhile_congr C .atSwitchLabel (switchLabel_congr C g))
    (last_congr C (C.recover _ ((Blind.atSwitchLabel.not.and (Blind.ahead .rBrace).not).and
      Blind.atEnd.not) g.stands.statements g.stands'.statements (g.rule .statement))))

/-- A switch repeats sections and skips what starts none. -/
theorem switchStatement_congr (C : Congruence R F S) (g : Inner R F S self self') :
    R (switchStatement self) (switchStatement self') :=
  node_congr C g.shapes.switchStatement (bump_congr C (cons_congr C (condition_congr C g)
    (cons_congr C (expect_congr C)
      (cons_congr C (repeatWhile_congr C (open_blind .rBrace) (either_congr C .atSwitchLabel
          (switchSection_congr C g) (skip_congr C (g.free _ rfl _) _)))
        (last_congr C (expect_congr C))))))

/-- An if with or without its else. -/
theorem ifStatement_congr (C : Congruence R F S) (g : Inner R F S self self') :
    R (ifStatement self) (ifStatement self') :=
  node_congr C g.shapes.ifStatement (bump_congr C (cons_congr C (condition_congr C g)
    (cons_congr C (embedded_congr C g)
      (last_congr C (given_congr C (.ahead .elseKw)
        (g.node C rfl (bump_congr C (last_congr C (embedded_congr C g)))))))))

/-- A while loop ends with the statement inside it. -/
theorem whileStatement_congr (C : Congruence R F S) (g : Inner R F S self self') :
    R (whileStatement self) (whileStatement self') :=
  leading_congr C g (by decide) [_, _] (bump_congr C (cons_congr C (condition_congr C g)
    (last_congr C (embedded_congr C g))))

/-- A do loop ends with a semicolon. -/
theorem doStatement_congr (C : Congruence R F S) (g : Inner R F S self self') :
    R (doStatement self) (doStatement self') :=
  simple_congr C g (by decide) [_, _, _, _] (bump_congr C (cons_congr C (embedded_congr C g)
    (cons_congr C (expect_congr C) (cons_congr C (condition_congr C g)
      (last_congr C (expect_congr C))))))

/-- A for loop starts with a declaration or with expressions, which the tokens ahead tell apart.
-/
theorem forStatement_congr (C : Congruence R F S) (g : Inner R F S self self') :
    R (forStatement self) (forStatement self') := by
  refine leading_congr C g (by decide) [_, _, _, _, _, _, _, _] (bump_congr C (cons_congr C
    (expect_congr C) (cons_congr C (either_congr C .atLocalDeclaration (variableDeclaration_congr C g)
      (expressionList_congr C g .semicolon))
    (cons_congr C (expect_congr C) (cons_congr C ?_ (cons_congr C (expect_congr C)
      (cons_congr C (expressionList_congr C g .rParen) (cons_congr C (expect_congr C)
        (last_congr C (embedded_congr C g))))))))))
  exact given_congr C (Blind.ahead .semicolon).not (g.rule .expression)

/-- A loop over a collection ends with the statement inside it. -/
theorem forEachStatement_congr (C : Congruence R F S) (g : Inner R F S self self') :
    R (forEachStatement self) (forEachStatement self') :=
  leading_congr C g (by decide) [_, _, _, _, _, _, _] (bump_congr C (cons_congr C (expect_congr C)
    (cons_congr C (g.rule .type) (cons_congr C (expect_congr C) (cons_congr C (expect_congr C)
      (cons_congr C (g.rule .expression) (cons_congr C (expect_congr C)
        (last_congr C (embedded_congr C g)))))))))

/-- A using statement holds a declaration or an expression. -/
theorem usingStatement_congr (C : Congruence R F S) (g : Inner R F S self self') :
    R (usingStatement self) (usingStatement self') :=
  leading_congr C g (by decide) [_, _, _, _] (bump_congr C (bump_congr C (cons_congr C
    (either_congr C .atLocalDeclaration (variableDeclaration_congr C g) (g.rule .expression))
    (cons_congr C (expect_congr C) (last_congr C (embedded_congr C g))))))

/-- A catch clause with or without its declaration. -/
theorem catchClause_congr (C : Congruence R F S) (g : Inner R F S self self') :
    R (catchClause self) (catchClause self') :=
  g.node C rfl (bump_congr C (cons_congr C (given_congr C (.ahead .lParen)
      (g.node C rfl (bump_congr C (cons_congr C (g.rule .type) (cons_congr C (eat_congr C)
        (last_congr C (expect_congr C)))))))
    (last_congr C (requiredBlock_congr C g))))

/-- A try with its clauses. -/
theorem tryStatement_congr (C : Congruence R F S) (g : Inner R F S self self') :
    R (tryStatement self) (tryStatement self') :=
  node_congr C g.shapes.tryStatement (bump_congr C (cons_congr C (requiredBlock_congr C g)
    (cons_congr C (repeatWhile_congr C (.ahead .catchKw) (catchClause_congr C g))
      (last_congr C (given_congr C (.ahead .finallyKw)
        (g.node C rfl (bump_congr C (last_congr C (requiredBlock_congr C g)))))))))

/-- A local declaration, with or without a keyword in front. -/
theorem localDeclaration_congr (C : Congruence R F S) (g : Inner R F S self self') :
    R (localDeclaration self []) (localDeclaration self' []) ∧
      R (localDeclaration self [bump]) (localDeclaration self' [bump]) := by
  have htail := cons_congr C (variableDeclaration_congr C g)
    (last_congr C (expect_congr C (k := .semicolon)))
  exact ⟨simple_congr C g (by decide) [_] htail,
    simple_congr C g (by decide) [_, _] (bump_congr C htail)⟩

/-- Where a semicolon comes next, it is there for the statement that ends with it. -/
theorem emptyStatement_eq : given (ahead .semicolon) (node .emptyStatement [bump]) =
    given (ahead .semicolon) (node .emptyStatement [expect .semicolon]) := by
  funext ts
  unfold given either
  split
  · next hsemicolon =>
    have hahead : ahead .semicolon (flush ts).rest = true := by
      rwa [ahead, current_flush, ← ahead]
    have hexpect : expect .semicolon (flush ts).rest = bump (flush ts).rest := by
      rw [expect, either, if_pos hahead]
    simp only [node, under, all, Step.andThen, hexpect]
  · rfl

/-- The statement that starts with a token of kind `k`, where it is read. -/
theorem statementFor_congr (C : Congruence R F S) (g : Inner R F S self self') (k : Kind) :
    R (given (ahead k) (statementFor self k)) (given (ahead k) (statementFor self' k)) := by
  by_cases hempty : k = .semicolon
  · subst hempty
    show R (given (ahead .semicolon) (node .emptyStatement [bump]))
      (given (ahead .semicolon) (node .emptyStatement [bump]))
    rw [emptyStatement_eq]
    exact given_congr C (.ahead _) (simple_congr C g (by decide) [] (last_congr C (expect_congr C)))
  have hlocal := localDeclaration_congr C g
  refine given_congr C (.ahead _) ?_
  unfold statementFor
  split
  · exact g.block
  · exact absurd rfl hempty
  · exact ifStatement_congr C g
  · exact switchStatement_congr C g
  · exact valueJump_congr C g (by decide)
  · exact valueJump_congr C g (by decide)
  · exact plainJump_congr C g (by decide)
  · exact plainJump_congr C g (by decide)
  · exact whileStatement_congr C g
  · exact doStatement_congr C g
  · exact forStatement_congr C g
  · exact forEachStatement_congr C g
  · exact tryStatement_congr C g
  · exact either_congr C (.aheadAt 1 .lParen) (usingStatement_congr C g) hlocal.2
  · exact hlocal.2
  · exact either_congr C .atLocalDeclaration hlocal.1 (given_congr C .atExpression
      (simple_congr C g (by decide) [_] (cons_congr C (g.rule .expression)
        (last_congr C (expect_congr C)))))

/-- A statement is told by the kind of the next token. -/
theorem statementPhrase_congr (C : Congruence R F S) (g : Inner R F S self self') :
    R (statementPhrase self) (statementPhrase self') :=
  dispatch_congr C (statementFor_congr C g)

/-! ### Declarations -/

/-- A using directive refers to no rule. -/
theorem usingDirective_congr (C : Congruence R F S) (g : Outer R F S self self') :
    R usingDirective usingDirective :=
  g.node C rfl (bump_congr C (cons_congr C (eat_congr C) (cons_congr C
    (given_congr C ((Blind.ahead .ident).and (.aheadAt 1 .eq)) (bumps_congr C))
    (cons_congr C (name_congr C g.toRules) (last_congr C (expect_congr C))))))

/-- Declarations are repeated, with what is skipped where one is stuck. -/
theorem declarations_congr (C : Congruence R F S) (g : Outer R F S self self') :
    R (declarations self) (declarations self') :=
  C.recover _ Blind.atEnd.not (g.stands.members none) (g.stands'.members none)
    (g.rule (.member none))

/-- Members are repeated, with what is skipped where one is stuck. -/
theorem memberList_congr (C : Congruence R F S) (g : Outer R F S self self')
    (enclosing : Option String) : R (memberList self enclosing) (memberList self' enclosing) :=
  C.recover _ (open_blind .rBrace) (g.stands.members enclosing) (g.stands'.members enclosing)
    (g.rule (.member enclosing))

/-- Type parameters refer to no rule. -/
theorem typeParameters_congr (C : Congruence R F S) (g : Outer R F S self self') :
    R typeParameters typeParameters := by
  have hitem := either_congr C (.ahead .ident)
    (g.node C rfl (k := .typeParameter) (last_congr C C.bump))
    (C.complain "Expected a type parameter")
  exact g.node C rfl (bump_congr C (cons_congr C (separated_congr C hitem)
    (last_congr C (expect_congr C))))

/-- Base types are types. -/
theorem baseList_congr (C : Congruence R F S) (g : Outer R F S self self') :
    R (baseList self) (baseList self') :=
  g.node C rfl (bump_congr C (last_congr C (separated_congr C (g.rule .type))))

/-- Constraints are tokens up to the body. -/
theorem constraints_congr (C : Congruence R F S) : R constraints constraints :=
  repeatWhile_congr C ((Blind.ahead .ident).and (Blind.currentText.map (· == "where")))
    (repeatWhile_congr C ((Blind.atEnd.not.and (Blind.ahead .lBrace).not).and
      (Blind.ahead .semicolon).not) C.bump)

/-- What follows the keyword of a type of that name. -/
def classBody (inner : Rule → Parser) (name : String) : List Parser :=
  [expect .ident, given (ahead .lt) typeParameters, given (ahead .colon) (baseList inner),
    constraints, expect .lBrace, memberList inner (some name), expect .rBrace, eat .semicolon]

/-- A type hands the name that it reads to its members, so both sides have to see the same name.
-/
theorem typeDeclaration_congr (C : Congruence R F S) (g : Outer R F S self self') :
    R (typeDeclaration self) (typeDeclaration self') := by
  refine bump_congr C (last_congr C (C.choose (l := currentText)
    (f := fun name => all (classBody self name)) (g := fun name => all (classBody self' name))
    .currentText fun name => ?_))
  exact cons_congr C (expect_congr C) (cons_congr C
    (given_congr C (.ahead .lt) (typeParameters_congr C g)) (cons_congr C
      (given_congr C (.ahead .colon) (baseList_congr C g)) (cons_congr C (constraints_congr C)
        (cons_congr C (expect_congr C) (cons_congr C (memberList_congr C g (some name))
          (cons_congr C (expect_congr C) (last_congr C (eat_congr C))))))))

/-- The members of an enumeration, as a list with commas. -/
theorem enumMembers_congr (C : Congruence R F S) (g : Outer R F S self self') :
    R (enumMembers self) (enumMembers self') := by
  have hmissing : (fun stuck : Bool =>
      if stuck then goOn (skip "Expected an enum member") else fun ts =>
        if ahead .rBrace ts then goOn done ts else stop (complain "Expected ',' or '\x7d'") ts) =
      fun stuck ts => Turn.mk
        ((if stuck then skip "Expected an enum member"
          else if ahead .rBrace ts then done else complain "Expected ',' or '\x7d'") ts)
        (stuck || ahead .rBrace ts) := by
    funext stuck ts
    cases stuck with
    | true => rfl
    | false => by_cases hclosed : ahead .rBrace ts = true <;> simp [hclosed, goOn, stop]
  unfold enumMembers
  rw [hmissing]
  refine commaLoop_congr C (ahead .rBrace)
    (fun stuck closed => if stuck then skip "Expected an enum member"
      else if closed then done else complain "Expected ',' or '\x7d'")
    (fun stuck closed => stuck || closed) (open_blind .rBrace) (.ahead .rBrace)
    (given_congr C ((Blind.ahead .ident).or (.ahead .lBracket)) g.enumMember)
    (fun stuck closed => ?_) (Or.inl ⟨g.stands.enumMember, g.stands'.enumMember⟩)
  cases stuck with
  | true => exact skip_congr C (g.free _ rfl _) _
  | false =>
      cases closed with
      | true => exact C.done
      | false => exact C.complain _

/-- An enumeration with its base type and its members. -/
theorem enumDeclaration_congr (C : Congruence R F S) (g : Outer R F S self self') :
    R (enumDeclaration self) (enumDeclaration self') :=
  bump_congr C (cons_congr C (expect_congr C) (cons_congr C
    (given_congr C (.ahead .colon) (baseList_congr C g)) (cons_congr C (expect_congr C)
      (cons_congr C (enumMembers_congr C g) (cons_congr C (expect_congr C)
        (last_congr C (eat_congr C)))))))

/-- A parameter, where one can start. -/
theorem parameter_congr (C : Congruence R F S) (g : Outer R F S self self') :
    R (parameter self) (parameter self') :=
  given_congr C (((Blind.ahead .lBracket).or .atParameterModifier).or .atType)
    (g.node C rfl (cons_congr C (attributeLists_congr C g.toRules) (cons_congr C
      (repeatWhile_congr C .atParameterModifier C.bump) (cons_congr C (g.rule .type)
        (cons_congr C (expect_congr C)
          (last_congr C (given_congr C (.ahead .eq) (equalsValue_congr C g.toRules))))))))

/-- The parameters of a method. A turn asks whether the parameter was stuck, and both sides
answer alike. -/
theorem parameterList_congr (C : Congruence R F S) (g : Outer R F S self self') :
    R (parameterList self) (parameterList self') := by
  have hturn : ∀ item : Parser, (fun ts =>
      let s := item ts
      if stuck ts s then Turn.mk (s.andThen (complain "Expected a parameter")) false
      else if ahead .comma s.rest then ⟨s.andThen bump, true⟩
      else ⟨s, false⟩) =
      turnOf (fun _ => ()) (fun _ => item) (ahead .comma)
        (fun _ stuck comma => if stuck then complain "Expected a parameter"
          else if comma then bump else done)
        (fun _ stuck comma => !stuck && comma) := by
    intro item
    funext ts
    simp only [turnOf]
    by_cases hstuck : stuck ts (item ts) = true
    · simp [hstuck]
    · by_cases hcomma : ahead .comma (item ts).rest = true
      · simp [hstuck, hcomma]
      · simp [hstuck, hcomma, Step.andThen_done]
  have hitems : R (loop (fun _ => true) (turnOf (fun _ => ()) (fun _ => parameter self)
      (ahead .comma) (fun _ stuck comma => if stuck then complain "Expected a parameter"
        else if comma then bump else done) (fun _ stuck comma => !stuck && comma)))
      (loop (fun _ => true) (turnOf (fun _ => ()) (fun _ => parameter self')
      (ahead .comma) (fun _ stuck comma => if stuck then complain "Expected a parameter"
        else if comma then bump else done) (fun _ stuck comma => !stuck && comma))) := by
    refine C.loop (.const true) (.const _) (.ahead .comma) (fun _ => parameter_congr C g)
      (fun _ stuck comma => ?_) (Or.inl fun _ => ⟨g.stands.parameter, g.stands'.parameter⟩)
    cases stuck with
    | true => exact C.complain _
    | false =>
        cases comma with
        | true => exact C.bump
        | false => exact C.done
  simp only [parameterList, hturn]
  exact g.node C rfl (cons_congr C (expect_congr C) (cons_congr C
    (given_congr C (Blind.ahead .rParen).not hitems) (last_congr C (expect_congr C))))

/-- An expression behind an arrow. -/
theorem arrowClause_congr (C : Congruence R F S) (g : Outer R F S self self') :
    R (arrowClause self) (arrowClause self') :=
  g.node C rfl (bump_congr C (last_congr C (g.rule .expression)))

/-- A block, an arrow with an expression, or a semicolon. -/
theorem body_congr (C : Congruence R F S) (g : Outer R F S self self') :
    R (body self) (body self') :=
  either_congr C (.ahead .lBrace) g.block (either_congr C (.ahead .fatArrow)
    (cons_congr C (arrowClause_congr C g) (last_congr C (expect_congr C))) (expect_congr C))

/-- The call of another constructor. -/
theorem constructorInitializer_congr (C : Congruence R F S) (g : Outer R F S self self') :
    R (constructorInitializer self) (constructorInitializer self') :=
  g.node C rfl (bump_congr C (cons_congr C
    (either_congr C ((Blind.ahead .baseKw).or (.ahead .thisKw)) C.bump (C.complain _))
    (last_congr C (either_congr C (.ahead .lParen) (argumentList_congr C g.toRules) (C.complain _)))))

/-- A constructor with its parameters. -/
theorem constructor_congr (C : Congruence R F S) (g : Outer R F S self self') :
    R (constructor self) (constructor self') :=
  bump_congr C (cons_congr C (parameterList_congr C g) (cons_congr C
    (given_congr C (.ahead .colon) (constructorInitializer_congr C g))
    (last_congr C (body_congr C g))))

/-- A method with its type and parameters. -/
theorem method_congr (C : Congruence R F S) (g : Outer R F S self self') :
    R (method self) (method self') :=
  cons_congr C (g.rule .type) (bump_congr C (cons_congr C
    (given_congr C (.ahead .lt) (typeParameters_congr C g)) (cons_congr C
      (parameterList_congr C g) (cons_congr C (constraints_congr C)
        (last_congr C (body_congr C g))))))

/-- An accessor, where one can start. -/
theorem accessor_congr (C : Congruence R F S) (g : Outer R F S self self') :
    R (accessor self) (accessor self') :=
  given_congr C (((Blind.ahead .ident).or (.ahead .lBracket)).or (Blind.current.map Kind.isModifier))
    (g.node C rfl (cons_congr C (attributeLists_congr C g.toRules) (cons_congr C (modifiers_congr C)
      (cons_congr C (expect_congr C) (last_congr C (body_congr C g))))))

/-- Accessors, with what is skipped where one is stuck. -/
theorem accessorList_congr (C : Congruence R F S) (g : Outer R F S self self') :
    R (accessorList self) (accessorList self') :=
  g.node C rfl (bump_congr C (cons_congr C (C.recover _ (open_blind .rBrace) g.stands.accessors
      g.stands'.accessors (accessor_congr C g))
    (last_congr C (expect_congr C))))

/-- A property with its accessors or its arrow. -/
theorem property_congr (C : Congruence R F S) (g : Outer R F S self self') :
    R (property self) (property self') :=
  cons_congr C (g.rule .type) (bump_congr C (last_congr C (either_congr C (.ahead .fatArrow)
    (cons_congr C (arrowClause_congr C g) (last_congr C (expect_congr C)))
    (cons_congr C (accessorList_congr C g) (last_congr C (given_congr C (.ahead .eq)
      (cons_congr C (equalsValue_congr C g.toRules) (last_congr C (expect_congr C)))))))))

/-- A field is its variables and a semicolon. -/
theorem field_congr (C : Congruence R F S) (g : Outer R F S self self') :
    R (field self) (field self') :=
  cons_congr C (variableDeclaration_congr C g.toInner) (last_congr C (expect_congr C))

/-- A member without a name is tokens and a complaint. -/
theorem nameless_congr (C : Congruence R F S) : R nameless nameless :=
  cons_congr C (C.complain _) (cons_congr C (repeatWhile_congr C
    (((Blind.atEnd.not.and (Blind.ahead .semicolon).not).and (Blind.ahead .rBrace).not).and
      (Blind.ahead .lBrace).not) C.bump) (last_congr C (eat_congr C)))

/-- What tells which declaration follows attributes and modifiers. -/
def declarationLook (ts : List Token) : (Kind × Kind) × String × Option (List Kind) :=
  ((current ts, nth 1 ts), currentText ts, pastType true ts)

/-- Which declaration follows attributes and modifiers. -/
def declarationFor (inner : Rule → Parser) (enclosing : Option String)
    (x : (Kind × Kind) × String × Option (List Kind)) : Option (Kind × Parser) :=
  match x.1.1 with
  | .classKw => some (.classDeclaration, typeDeclaration inner)
  | .structKw => some (.structDeclaration, typeDeclaration inner)
  | .interfaceKw => some (.interfaceDeclaration, typeDeclaration inner)
  | .enumKw => some (.enumDeclaration, enumDeclaration inner)
  | k =>
    if k == .ident && x.1.2 == .lParen && enclosing == some x.2.1 then
      some (.constructorDeclaration, constructor inner)
    else match x.2.2 with
      | none => none
      | some (.ident :: .lParen :: _) | some (.ident :: .lt :: _) =>
        some (.methodDeclaration, method inner)
      | some (.ident :: .lBrace :: _) | some (.ident :: .fatArrow :: _) =>
        some (.propertyDeclaration, property inner)
      | some (.ident :: _) => some (.fieldDeclaration, field inner)
      | some _ => some (.error, nameless)

/-- What a declaration can be: its kind, and how it is read.  A type starts with its keyword; a member
starts with a type, and all but errors have a name behind that. -/
inductive Declares (inner : Rule → Parser) (x : (Kind × Kind) × String × Option (List Kind)) :
    Kind → Parser → Prop where
  | type {k : Kind} (keyword : x.1.1 ∈ [.classKw, .structKw, .interfaceKw])
      (kind : k ∈ [.classDeclaration, .structDeclaration, .interfaceDeclaration]) :
      Declares inner x k (typeDeclaration inner)
  | enum (keyword : x.1.1 = .enumKw) : Declares inner x .enumDeclaration (enumDeclaration inner)
  | constructor (name : x.1.1 = .ident) :
      Declares inner x .constructorDeclaration (constructor inner)
  | method {ks : List Kind} (named : x.2.2 = some (.ident :: ks)) :
      Declares inner x .methodDeclaration (method inner)
  | property {ks : List Kind} (named : x.2.2 = some (.ident :: ks)) :
      Declares inner x .propertyDeclaration (property inner)
  | field {ks : List Kind} (named : x.2.2 = some (.ident :: ks)) :
      Declares inner x .fieldDeclaration (field inner)
  | nameless {ks : List Kind} (typed : x.2.2 = some ks) : Declares inner x .error nameless

/-- **The declaration that is picked is one of these.** -/
theorem declares_of_declarationFor {inner : Rule → Parser} {enclosing : Option String}
    {x : (Kind × Kind) × String × Option (List Kind)} {k : Kind} {p : Parser}
    (h : declarationFor inner enclosing x = some (k, p)) : Declares inner x k p := by
  unfold declarationFor at h
  split at h
  · next hkeyword =>
    cases h
    exact .type (by rw [hkeyword]; decide) (by decide)
  · next hkeyword =>
    cases h
    exact .type (by rw [hkeyword]; decide) (by decide)
  · next hkeyword =>
    cases h
    exact .type (by rw [hkeyword]; decide) (by decide)
  · next hkeyword =>
    cases h
    exact .enum hkeyword
  split at h
  · next hname =>
    cases h
    exact .constructor (beq_iff_eq.1 (Bool.and_eq_true_iff.1 (Bool.and_eq_true_iff.1 hname).1).1)
  split at h
  · cases h
  · next hnamed =>
    cases h
    exact .method hnamed
  · next hnamed =>
    cases h
    exact .method hnamed
  · next hnamed =>
    cases h
    exact .property hnamed
  · next hnamed =>
    cases h
    exact .property hnamed
  · next hnamed =>
    cases h
    exact .field hnamed
  · next htyped =>
    cases h
    exact .nameless htyped

/-- The same of the declaration that the tokens ahead pick. -/
theorem declares_of_declaration? {inner : Rule → Parser} {enclosing : Option String}
    {ts : List Token} {k : Kind} {p : Parser} (h : declaration? inner enclosing ts = some (k, p)) :
    Declares inner (declarationLook ts) k p :=
  declares_of_declarationFor h

/-- The declaration behind attributes and modifiers is told by the tokens ahead there. -/
theorem declared_eq (inner : Rule → Parser) (enclosing : Option String) :
    declared inner enclosing = headed (all [attributeLists inner, modifiers]) declarationLook
      (declarationFor inner enclosing) "Expected a member declaration" := rfl

/-- For the same tokens ahead both sides pick the same kind of declaration and related parts. -/
theorem declarationFor_congr {H : Kind → Parser → Prop} (C : Congruence R F S)
    (g : Outer R F S self self') (hfree : ∀ k, isShaped k = false → ∀ p, H k p)
    (hshapes : DeclarationShapes H self) (enclosing : Option String)
    (x : (Kind × Kind) × String × Option (List Kind)) :
    Alike R H (declarationFor self enclosing x) (declarationFor self' enclosing x) := by
  have halike {k : Kind} {p p' : Parser} (hk : isShaped k = false) (hp : R p p') :
      Alike R H (some (k, p)) (some (k, p')) := ⟨rfl, hfree k hk p, hp⟩
  unfold declarationFor
  split
  · exact ⟨rfl, hshapes.classDeclaration, typeDeclaration_congr C g⟩
  · exact ⟨rfl, hshapes.structDeclaration, typeDeclaration_congr C g⟩
  · exact ⟨rfl, hshapes.interfaceDeclaration, typeDeclaration_congr C g⟩
  · exact ⟨rfl, hshapes.enumDeclaration, enumDeclaration_congr C g⟩
  split
  · exact halike rfl (constructor_congr C g)
  split
  · trivial
  · exact ⟨rfl, hshapes.methodDeclaration, method_congr C g⟩
  · exact ⟨rfl, hshapes.methodDeclaration, method_congr C g⟩
  · exact ⟨rfl, hshapes.propertyDeclaration, property_congr C g⟩
  · exact ⟨rfl, hshapes.propertyDeclaration, property_congr C g⟩
  · exact halike rfl (field_congr C g)
  · exact halike rfl (nameless_congr C)

/-- Attributes and modifiers in front of a declaration. -/
theorem lead_congr (C : Congruence R F S) (g : Outer R F S self self') :
    R (all [attributeLists self, modifiers]) (all [attributeLists self', modifiers]) :=
  cons_congr C (attributeLists_congr C g.toRules) (last_congr C (modifiers_congr C))

/-- Declarations are related if their shapes do not depend on the attributes and modifiers. -/
theorem declared_congr (C : Congruence R F S) (g : Outer R F S self self')
    (hshapes : DeclarationShapes F self) (enclosing : Option String) :
    R (declared self enclosing) (declared self' enclosing) := by
  have hlook : Blind declarationLook :=
    (Blind.current.pair (.nth 1)).pair (Blind.currentText.pair (.pastType true))
  rw [declared_eq, declared_eq]
  exact C.head _ g.stands.lead g.stands'.lead hlook (lead_congr C g)
    (declarationFor_congr C g g.free hshapes enclosing)

/-- A declaration with the trivia before it. -/
theorem declaration_congr (C : Congruence R F S) (g : Ground R F S self self')
    (enclosing : Option String) : R (declaration self enclosing) (declaration self' enclosing) :=
  cons_congr C C.flush (last_congr C (g.declared enclosing))

/-- The member that starts with a token of kind `k`, where it is read. -/
theorem memberFor_congr (C : Congruence R F S) (g : Ground R F S self self')
    (enclosing : Option String) (k : Kind) :
    R (given (ahead k) (memberFor self enclosing k))
      (given (ahead k) (memberFor self' enclosing k)) := by
  unfold memberFor
  split
  · exact given_congr C (.ahead _) (either_congr C (.const _) (usingDirective_congr C g.toOuter)
      (declaration_congr C g enclosing))
  · exact g.namespaceDeclaration
  · exact given_congr C (.ahead _) C.done
  · exact given_congr C (.ahead _) C.done
  · exact given_congr C (.ahead _) C.done
  · exact given_congr C (.ahead _) (declaration_congr C g enclosing)

/-- A member is told by the kind of the next token. -/
theorem memberPhrase_congr (C : Congruence R F S) (g : Ground R F S self self')
    (enclosing : Option String) : R (memberPhrase self enclosing) (memberPhrase self' enclosing) :=
  dispatch_congr C (memberFor_congr C g enclosing)

/-! ### The whole -/

/-- Does the rule read a namespace, a type or a member? -/
def Rule.isMember : Rule → Bool
  | .member _ => true
  | _ => false

/-- Statements, expressions and types respect a congruence that says nothing about members. -/
theorem phrase_congr_inner (C : Congruence R F S) (g : Inner R F S self self') {r : Rule}
    (hr : r.isMember = false) : R (phrase self r) (phrase self' r) := by
  cases r with
  | member enclosing => cases hr
  | statement => exact statementPhrase_congr C g
  | expression => exact expressionPhrase_congr C g
  | binary level => exact g.binary level
  | unary => exact unaryPhrase_congr C g
  | type => exact g.type

/-- **The grammar respects every congruence.** -/
theorem phrase_congr (C : Congruence R F S) (g : Ground R F S self self') (r : Rule) :
    R (phrase self r) (phrase self' r) := by
  cases hr : r.isMember with
  | true =>
      cases r with
      | member enclosing => exact memberPhrase_congr C g enclosing
      | _ => cases hr
  | false => exact phrase_congr_inner C g.toInner hr

end Grammar

/-- A relation that has something to say about the nodes of some kinds at most. -/
theorem Rules.but {R : Parser → Parser → Prop} {F : Kind → Parser → Prop}
    {self self' : Rule → Parser} {ks : List Kind} (hks : ∀ k ∈ ks, isShaped k = true)
    (hF : ∀ k, k ∉ ks → ∀ p, F k p) (h : ∀ r, R (self r) (self' r)) : Rules R F self self' :=
  ⟨h, fun k hk => hF k fun hmem => by
    rw [hks k hmem] at hk
    cases hk⟩

/-- For a relation that has something to say about statements, binary expressions, member accesses,
types, enumerations and their members, methods and properties at most, related rules and related
phrases are enough for what members need. -/
theorem Congruence.outerOver {R : Parser → Parser → Prop} {F : Kind → Parser → Prop}
    {S : Standing → Parser → Prop} {self self' : Rule → Parser} (C : Congruence R F S)
    (hF : ∀ k, k ∉ [.binaryExpression, .memberAccessExpression, .type, .typeArgumentList,
      .enumMemberDeclaration, .enumDeclaration, .methodDeclaration, .propertyDeclaration, .block] ++
      shapedInside → ∀ p, F k p)
    (h : ∀ r, R (self r) (self' r)) (hshapes : Shapes F self) (hblock : R (block self) (block self'))
    (hbinary : ∀ level, R (binaryPhrase self level) (binaryPhrase self' level))
    (hsuffix : R (suffixPhrase self) (suffixPhrase self'))
    (htype : R (typePhrase self) (typePhrase self'))
    (hmember : R (enumMember self) (enumMember self'))
    (hstands : Stands S self) (hstands' : Stands S self') : Outer R F S self self' := by
  have hrules : Rules R F self self' := .but (by decide) hF h
  have hvalue := given_congr C (.ahead .eq) (equalsValue_congr C hrules)
  have hbody := cons_congr C (expect_congr C (k := .lBrace)) (cons_congr C
    (C.recover "Unexpected token in declaration list" (open_blind .rBrace) (hstands.members none)
      (hstands'.members none) (h (.member none)))
    (last_congr C (expect_congr C (k := .rBrace))))
  have hfile := bump_congr C (last_congr C
    (C.recover "Expected a declaration" Blind.atEnd.not (hstands.members none)
      (hstands'.members none) (h (.member none))))
  exact {
    toRules := hrules
    shapes := hshapes
    block := hblock
    binary := hbinary
    suffix := hsuffix
    type := htype
    declarator := either_congr C (.ahead .ident)
      (node_congr C (hF _ (by decide) _) (bump_congr C (last_congr C hvalue))) (C.complain _)
    enumMember := hmember
    namespaceDeclaration := given_congr C (.ahead _) (node_congr C (hF _ (by decide) _) (bump_congr C
      (cons_congr C (name_congr C hrules)
        (last_congr C (either_congr C (.ahead .semicolon) hfile hbody)))))
    stands := hstands
    stands' := hstands' }

/-- For a relation that has something to say about binary expressions, member accesses, types and
members of enumerations at most, related rules and related phrases of these are enough. -/
theorem Congruence.groundOver {R : Parser → Parser → Prop} {F : Kind → Parser → Prop}
    {S : Standing → Parser → Prop} {self self' : Rule → Parser} (C : Congruence R F S)
    (hF : ∀ k, k ∉ [.binaryExpression, .memberAccessExpression, .type, .typeArgumentList,
      .enumMemberDeclaration] → ∀ p, F k p)
    (h : ∀ r, R (self r) (self' r))
    (hbinary : ∀ level, R (binaryPhrase self level) (binaryPhrase self' level))
    (hsuffix : R (suffixPhrase self) (suffixPhrase self'))
    (htype : R (typePhrase self) (typePhrase self'))
    (hmember : R (enumMember self) (enumMember self'))
    (hstands : Stands S self) (hstands' : Stands S self') : Ground R F S self self' := by
  have houter := C.outerOver (fun k hk => hF k fun hmem => hk (by simp_all)) h
    (.of_free (fun k hk => hF k (by revert k; decide)) self)
    (block_congr C (.but (by decide) hF h) (hF _ (by decide) _) hstands hstands')
    hbinary hsuffix htype hmember hstands hstands'
  exact ⟨houter, declared_congr C houter (by constructor <;> exact hF _ (by decide) _)⟩

/-- For a relation that has something to say about binary expressions and member accesses at most,
related rules and related phrases of these are enough. -/
theorem Congruence.groundBut {R : Parser → Parser → Prop} {F : Kind → Parser → Prop}
    {S : Standing → Parser → Prop} {self self' : Rule → Parser} (C : Congruence R F S)
    (hF : ∀ k, k ∉ [.binaryExpression, .memberAccessExpression] → ∀ p, F k p)
    (h : ∀ r, R (self r) (self' r))
    (hbinary : ∀ level, R (binaryPhrase self level) (binaryPhrase self' level))
    (hsuffix : R (suffixPhrase self) (suffixPhrase self'))
    (hstands : Stands S self) (hstands' : Stands S self') : Ground R F S self self' := by
  have hrules : Rules R F self self' := .but (by decide) hF h
  refine C.groundOver (fun k hk => hF k fun hmem => hk (List.mem_append_left _ hmem)) h hbinary
    hsuffix (typePhrase_congr C (hF _ (by decide)) (hF _ (by decide)) (h .type)) ?_ hstands hstands'
  exact node_congr C (hF _ (by decide) _) (cons_congr C (attributeLists_congr C hrules)
    (cons_congr C (expect_congr C)
      (last_congr C (given_congr C (.ahead .eq) (equalsValue_congr C hrules)))))

/-- For a relation that has nothing to say about single nodes, related rules are enough. -/
theorem Congruence.ground {R : Parser → Parser → Prop} {S : Standing → Parser → Prop}
    {self self' : Rule → Parser} (C : Congruence R (fun _ _ => True) S)
    (h : ∀ r, R (self r) (self' r)) (hstands : Stands S self) (hstands' : Stands S self') :
    Ground R (fun _ _ => True) S self self' :=
  C.groundBut (fun _ _ _ => trivial) h
    (binaryPhrase_congr C ⟨h, fun _ _ _ => trivial⟩ fun _ => trivial)
    (suffixPhrase_congr C ⟨h, fun _ _ _ => trivial⟩ (fun _ => trivial) hstands hstands')
    hstands hstands'

end CodeMend.Parse
