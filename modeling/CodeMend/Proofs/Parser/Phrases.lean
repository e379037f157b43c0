import CodeMend.Proofs.Parser.Orderly

/-!
# The phrases keep order

Every definition of the grammar keeps the contract of `Orderly`, provided that the rules it refers
to do (`Safe`).  The lemmas stand in the order of the grammar, one for each definition: it
`Commits` itself wherever it is entered, or it has `Advanced` where its caller has seen its first
token.

The numbers in `Safe` rank the rules by how deep they go before they take a token: an expression
enters a binary expression, that an operand, and that a type.  Behind a token every rule may be
entered again.

A member may put the trivia before it in place and then find that none starts here (`Drifts`).  The
loops over members survive that, because the next turn is stuck and complains.
-/

namespace CodeMend.Parse

open Tree

/-- A parser that may put the trivia before it in place and take nothing more; entered again behind
it, it is stuck. -/
def Drifts (bound rules : Nat) (p : Parser) : Prop :=
  ∀ ts, Room bound rules ts → (p ts).Faithful ts ∧
    ((p ts).errors = [] → EndsSignificant (tokensAll (p ts).built) ∨
      (p ts).rest = (flush ts).rest ∧ (p (flush ts).rest).rest = (flush ts).rest)

/-- What the rules promise to the definitions that refer to them. -/
structure Safe (bound : Nat) (inner : Rule → Parser) : Prop where
  type : Commits bound 1 (inner .type)
  unary : Commits bound 2 (inner .unary)
  binary : ∀ level, Commits bound 3 (inner (.binary level))
  expression : Commits bound 4 (inner .expression)
  statement : Keeps bound 5 (inner .statement)
  member : ∀ enclosing, Drifts bound 2 (inner (.member enclosing))

variable {bound rules : Nat} {self : Rule → Parser} {ts : List Token}

/-! ## Behind a token -/

/-- Behind a token a type may be entered. -/
theorem Safe.types (hs : Safe bound self) : Commits bound rulesPerToken (self .type) :=
  hs.type.mono (by decide)

/-- Behind a token an expression may be entered. -/
theorem Safe.expressions (hs : Safe bound self) : Commits bound rulesPerToken (self .expression) :=
  hs.expression.mono (by decide)

/-- Behind a token a statement may be entered. -/
theorem Safe.statements (hs : Safe bound self) : Keeps bound rulesPerToken (self .statement) :=
  hs.statement.mono (by decide)

/-- What holds of the next kind, but not of the end of the file, shows that there is a token. -/
theorem not_atEnd_of {P : Kind → Bool} (hP : P .endOfFile = false) (h : P (current ts) = true) :
    atEnd ts = false := by
  refine not_atEnd_of_current (k := current ts) (fun hend => ?_) rfl
  rw [hend, hP] at h
  exact absurd h (by decide)

/-- No type starts at the end of the file. -/
theorem startsType_not_atEnd (h : startsType ts = true) : atEnd ts = false :=
  not_atEnd_of (P := fun k => k.isPredefinedType || k == .ident) rfl h

/-- A token that is expected keeps order. -/
theorem expect_keeps {k : Kind} (hk : k ≠ .endOfFile) : Keeps bound rules (expect k) :=
  (expect_commits bound rules hk).keeps

/-- A node that is entered where its first token is ahead, or a complaint. -/
theorem either_node_commits {look : Look} {k : Kind} {ps : List Parser} {message : String}
    (hlook : ∀ ts, look ts = true → atEnd ts = false) (hps : Keeps bound rulesPerToken (all ps)) :
    Commits bound rules (either look (node k (bump :: ps)) (complain message)) :=
  either_commits (fun ts h hroom => (node_bump_advanced (hlook ts h) hroom hps k).toCommitted)
    (complain_commits bound rules message)

/-- A loop of single tokens. -/
theorem repeatWhile_bump_keeps {look : Look} (hlook : ∀ ts, look ts = true → atEnd ts = false) :
    Keeps bound rules (repeatWhile look bump) :=
  repeatWhile_keeps fun ts h _ => bump_advanced (hlook ts h)

/-- An identifier is not the end of the file. -/
theorem ahead_ident_not_atEnd (ts : List Token) (h : ahead .ident ts = true) : atEnd ts = false :=
  not_atEnd_of_ahead (by decide) h

/-- A loop that goes on until a closing token or the end of the file stops at the latter. -/
theorem not_atEnd_of_open {k : Kind} (ts : List Token) (h : (!ahead k ts && !atEnd ts) = true) :
    atEnd ts = false := by
  simpa using (Bool.and_eq_true_iff.1 h).2

/-! ## Names and types -/

/-- A dotted name is read or complained about. -/
theorem name_commits : Commits bound rules name := by
  refine either_node_commits ahead_ident_not_atEnd (.cons (repeatWhile_keeps fun ts h _ => ?_) .nil)
  obtain ⟨hdot, hident⟩ := Bool.and_eq_true_iff.1 h
  refine bump_bump_advanced (not_atEnd_of_ahead (by decide) hdot) ?_
  rw [show nth 1 ts = .ident by simpa [aheadAt] using hident]
  decide

/-- Type arguments start with a bracket, behind which types may be entered. -/
theorem typeArguments_commits (hs : Safe bound self) : Commits bound rules (typeArguments self) :=
  .node (.bump (.cons (separated_commits hs.types) (.cons (expect_keeps (by decide)) .nil))) _

/-- The brackets of an array type take a token. -/
theorem rank_advanced (hend : atEnd ts = false) (hroom : Room bound rules ts) :
    (rank ts).Advanced ts :=
  all_bump_advanced hend hroom
    (.cons (repeatWhile_bump_keeps fun _ h => not_atEnd_of_ahead (by decide) h)
      (.cons (expect_keeps (by decide)) .nil))

/-- Each turn behind a name takes a bracket or a dot. -/
theorem typeNameTail_keeps (hs : Safe bound self) : Keeps bound rules (typeNameTail self) := by
  refine loop_keeps fun ts _ hroom => ?_
  have harguments := (typeArguments_commits hs).keeps.given atTypeArguments ts hroom
  dsimp only
  split
  · next hdot =>
    obtain ⟨hdot, hident⟩ := Bool.and_eq_true_iff.1 hdot
    have hnext : nth 1 (given atTypeArguments (typeArguments self) ts).rest = .ident := by
      simpa [aheadAt] using hident
    have hadvanced := harguments.andAdvance (bump_bump_advanced
      (not_atEnd_of_ahead (by decide) hdot) (by rw [hnext]; decide))
    exact ⟨hadvanced.toOrderly, fun _ => hadvanced.moved⟩
  · exact ⟨harguments, fun hagain => by simp at hagain⟩

/-- A type is read or complained about. -/
theorem typePhrase_commits (hs : Safe bound self) : Commits bound rules (typePhrase self) := by
  have hranks : Keeps bound rulesPerToken (repeatWhile
      (fun ts => ahead .lBracket ts && (aheadAt 1 .rBracket ts || aheadAt 1 .comma ts)) rank) :=
    repeatWhile_keeps fun ts h hroom =>
      rank_advanced (not_atEnd_of_ahead (by decide) (Bool.and_eq_true_iff.1 h).1) hroom
  have hsuffix := Keeps.cons (eat_keeps (k := .question) bound rulesPerToken (by decide))
    (.cons hranks .nil)
  refine either_commits (fun ts hident hroom => ?_) (either_node_commits
    (fun _ => startsType_not_atEnd) (.cons hsuffix .nil))
  exact (node_bump_advanced (ahead_ident_not_atEnd ts hident) hroom
    (.cons (typeNameTail_keeps hs) (.cons hsuffix .nil)) .type).toCommitted

/-! ## Arguments -/

/-- An argument commits with its expression, as deep as that goes. -/
theorem argument_commits (hs : Safe bound self) : Commits bound 4 (argument self) := by
  refine Commits.node (Commits.later (fun ts hroom => ?_) (.cons hs.expression .nil)) _
  split
  · next hnamed =>
    obtain ⟨hident, hcolon⟩ := Bool.and_eq_true_iff.1 hnamed
    refine (bump_bump_advanced (ahead_ident_not_atEnd ts hident) ?_).toOrderly
    rw [show nth 1 ts = .colon by simpa [aheadAt] using hcolon]
    decide
  · refine given_keeps (fun us hmodifier hus => ?_) ts hroom
    have hend : atEnd us = false :=
      not_atEnd_of (P := fun k => [Kind.refKw, .outKw, .inKw].contains k) rfl hmodifier
    exact (all_bump_advanced hend hus (.cons (hs.types.keeps.given _) .nil)).toOrderly

/-- Each turn of the arguments takes a token or ends the loop with a complaint. -/
theorem arguments_keeps (hs : Safe bound self) (closing : Kind) :
    Keeps bound rulesPerToken (arguments self closing) := by
  refine loop_keeps fun ts _ hroom => ?_
  split
  · exact commaTurn_stop_sound ((argument_commits hs).mono (by decide) ts hroom).toOrderly
  · exact ⟨(complain_committed _ ts).toOrderly, fun hagain => by simp [stop] at hagain⟩

/-- Arguments in parentheses commit with the parenthesis. -/
theorem argumentList_commits (hs : Safe bound self) : Commits bound rules (argumentList self) :=
  .node (.bump (.later (arguments_keeps hs _)
    (.cons (expect_commits _ _ (by decide)) .nil))) _

/-- Arguments in brackets commit with the bracket. -/
theorem bracketedArgumentList_commits (hs : Safe bound self) :
    Commits bound rules (bracketedArgumentList self) :=
  .node (.bump (.later (arguments_keeps hs _)
    (.cons (expect_commits _ _ (by decide)) .nil))) _

/-- Attributes take their bracket. -/
theorem attributeList_advanced (hs : Safe bound self) (hend : atEnd ts = false)
    (hroom : Room bound rules ts) : (attributeList self ts).Advanced ts := by
  have hspec : Commits bound rulesPerToken
      (node .attributeSpec [name, given (ahead .lParen) (argumentList self)]) :=
    .node (.cons name_commits (.cons ((argumentList_commits hs).keeps.given _) .nil)) _
  have hitem : Commits bound rulesPerToken (either (ahead .ident)
      (node .attributeSpec [name, given (ahead .lParen) (argumentList self)])
      (complain "Expected an attribute")) :=
    either_commits (fun us _ hus => hspec us hus) (complain_commits _ _ _)
  exact node_bump_advanced hend hroom
    (.cons (separated_keeps hitem.keeps) (.cons (expect_keeps (by decide)) .nil)) _

/-- Attributes are repeated while a bracket is ahead. -/
theorem attributeLists_keeps (hs : Safe bound self) : Keeps bound rules (attributeLists self) :=
  repeatWhile_keeps fun _ h hroom =>
    attributeList_advanced hs (not_atEnd_of_ahead (by decide) h) hroom

/-- Modifiers are single tokens. -/
theorem modifiers_keeps : Keeps bound rules modifiers :=
  repeatWhile_bump_keeps fun _ h => not_atEnd_of (P := Kind.isModifier) rfl h

/-! ## Expressions -/

/-- An initializer commits with its brace, and each turn takes an element or skips a token. -/
theorem initializer_commits (hs : Safe bound self) : Commits bound rules (initializer self) := by
  refine .node (.bump (.later (loop_keeps fun ts hopen hroom => ?_)
    (.cons (expect_commits _ _ (by decide)) .nil))) _
  have hitem := (hs.expressions ts hroom).toOrderly
  have hrest := hroom.rest hitem.toFaithful
  cases hstuck : stuck ts (self .expression ts) with
  | false =>
      refine commaTurn_sound hitem ?_ (fun _ h => by simp [hstuck] at h)
      rw [hstuck]
      exact orderly_of_idle []
  | true =>
      have hend : atEnd (self .expression ts).rest = false := by
        rw [hitem.rest_eq_of_stuck hstuck]
        exact not_atEnd_of_open ts hopen
      have hskip := skip_advanced "Expected an initializer element" hrest hend
      refine commaTurn_sound hitem ?_ (fun _ _ => ?_)
      · rw [hstuck]
        exact hskip.toOrderly
      · rw [hstuck]
        exact hskip.moved

/-- The creation of an object takes its keyword. -/
theorem objectCreation_advanced (hs : Safe bound self) (hend : atEnd ts = false)
    (hroom : Room bound rules ts) : (objectCreation self ts).Advanced ts :=
  node_bump_advanced hend hroom
    (.cons (hs.types.keeps.given _) (.cons ((bracketedArgumentList_commits hs).keeps.given _)
      (.cons ((argumentList_commits hs).keeps.given _)
        (.cons ((initializer_commits hs).keeps.given _) .nil)))) _

/-- A name takes its token. -/
theorem identifierName_advanced (hend : atEnd ts = false) (hroom : Room bound rules ts) :
    (identifierName ts).Advanced ts := node_bump_advanced hend hroom .nil _

/-- Where a primary expression starts, it takes its first token, or it is a type and commits as
one. -/
theorem primary_committed (hs : Safe bound self) {p : Parser}
    (hp : primary? self (current ts) = some p) (hroom : Room bound 1 ts) :
    (p ts).Committed ts := by
  have hend : atEnd ts = false := by
    refine not_atEnd_of_current (k := current ts) (fun h => ?_) rfl
    rw [h] at hp
    exact absurd hp (by simp [show primary? self .endOfFile = none from rfl])
  unfold primary? at hp
  split at hp
  · obtain rfl := Option.some.inj hp
    exact (node_bump_advanced hend hroom .nil _).toCommitted
  split at hp
  · obtain rfl := Option.some.inj hp
    exact hs.type ts hroom
  split at hp
  · obtain rfl := Option.some.inj hp
    exact (identifierName_advanced hend hroom).toCommitted
  · obtain rfl := Option.some.inj hp
    exact (node_bump_advanced hend hroom .nil _).toCommitted
  · obtain rfl := Option.some.inj hp
    exact (node_bump_advanced hend hroom .nil _).toCommitted
  · obtain rfl := Option.some.inj hp
    exact Commits.node (.bump (.cons hs.expressions (.cons (expect_keeps (by decide)) .nil))) _
      ts hroom
  · obtain rfl := Option.some.inj hp
    exact (objectCreation_advanced hs hend hroom).toCommitted
  · obtain rfl := Option.some.inj hp
    exact Commits.node (.bump (.cons (expect_commits _ _ (by decide)) (.cons hs.types.keeps
      (.cons (expect_keeps (by decide)) .nil)))) _ ts hroom
  · obtain rfl := Option.some.inj hp
    have htype : Keeps bound rulesPerToken (all [bump, self .type, expect .rParen]) :=
      (Commits.bump (.cons hs.types (.cons (expect_keeps (by decide)) .nil))).keeps
    exact (node_bump_advanced hend hroom (.cons (htype.given _) .nil) _).toCommitted
  · obtain rfl := Option.some.inj hp
    exact initializer_commits hs ts hroom
  · exact absurd hp (by simp)

/-- Every suffix of an operand takes a token: a dot, a bracket or an operator. -/
theorem suffix_soundly (hs : Safe bound self) : WrapsSoundly bound rules (suffix? self) := by
  intro ts k ps hpick hroom
  have hend : atEnd ts = false := by
    refine not_atEnd_of_current (k := current ts) (fun h => ?_) rfl
    rw [suffix?, h] at hpick
    exact absurd hpick (by simp)
  have hmember : Commits bound rulesPerToken
      (either (ahead .ident) identifierName (complain "Expected a member name")) :=
    either_node_commits ahead_ident_not_atEnd .nil
  unfold suffix? at hpick
  split at hpick
  · obtain ⟨-, rfl⟩ := Prod.mk.inj (Option.some.inj hpick)
    exact all_bump_advanced hend hroom (.cons hmember.keeps .nil)
  · obtain ⟨-, rfl⟩ := Prod.mk.inj (Option.some.inj hpick)
    exact all_bump_advanced hend hroom (.cons hmember.keeps .nil)
  · obtain ⟨-, rfl⟩ := Prod.mk.inj (Option.some.inj hpick)
    have hlist := node_bump_advanced hend hroom
      (.cons (arguments_keeps hs .rParen) (.cons (expect_keeps (k := .rParen) (by decide)) .nil))
      .argumentList
    exact hlist.cons hroom .nil
  · obtain ⟨-, rfl⟩ := Prod.mk.inj (Option.some.inj hpick)
    have hlist := node_bump_advanced hend hroom
      (.cons (arguments_keeps hs .rBracket) (.cons (expect_keeps (k := .rBracket) (by decide)) .nil))
      .bracketedArgumentList
    exact hlist.cons hroom .nil
  · obtain ⟨-, rfl⟩ := Prod.mk.inj (Option.some.inj hpick)
    exact all_bump_advanced hend hroom .nil
  · obtain ⟨-, rfl⟩ := Prod.mk.inj (Option.some.inj hpick)
    exact all_bump_advanced hend hroom .nil
  · exact absurd hpick (by simp)

/-- An operand with its suffixes is read or complained about. -/
theorem suffixPhrase_commits (hs : Safe bound self) : Commits bound 1 (suffixPhrase self) := by
  refine flush_commits fun ts hready hroom => ?_
  split
  · next p hp =>
    exact wrapped_committed (suffix_soundly hs) hready hroom (primary_committed hs hp hroom)
  · exact complain_committed _ ts

/-- An operand with an operator in front takes that operator; without one, it commits as it is.
-/
theorem unaryPhrase_commits (hs : Safe bound self) : Commits bound 1 (unaryPhrase self) := by
  intro ts hroom
  unfold unaryPhrase
  split
  · exact Commits.node (.bump (.cons (hs.unary.mono (by decide)) .nil)) _ ts hroom
  · exact suffixPhrase_commits hs ts hroom

/-- An operator of two tokens is two `>` in a row. -/
theorem operator_cases {precedence width : Nat} (h : operator? ts = some (precedence, width)) :
    atEnd ts = false ∧ (width = 1 ∨ width = 2 ∧ nth 1 ts ≠ .endOfFile) := by
  unfold operator? at h
  split at h
  · next hshift =>
    obtain ⟨-, rfl⟩ := Prod.mk.inj (Option.some.inj h)
    unfold atRightShift at hshift
    split at hshift
    · next a b rest hdrop =>
      obtain ⟨ha, hb⟩ := Bool.and_eq_true_iff.1 hshift
      have ha : a.kind = .gt := by simpa using ha
      have hb : b.kind = .gt := by simpa using hb
      have hkinds : kinds ts = .gt :: .gt :: kinds rest := by
        rw [← kinds_flush ts]
        show kinds (ts.dropWhile (·.kind.isTrivia)) = _
        simp [hdrop, kinds, significant, ha, hb, show Kind.gt.isTrivia = false from rfl]
      refine ⟨not_atEnd_of_current (k := .gt) (by decide) (by simp [current, nth, hkinds]),
        Or.inr ⟨rfl, by simp [nth, hkinds]⟩⟩
    · exact absurd hshift (by decide)
  · obtain ⟨p, hp, heq⟩ := Option.map_eq_some_iff.1 h
    obtain ⟨-, rfl⟩ := Prod.mk.inj heq
    refine ⟨not_atEnd_of_current (k := current ts) (fun hend => ?_) rfl, Or.inl rfl⟩
    rw [hend] at hp
    exact absurd hp (by simp [precedence?])

/-- A binary expression goes on with its operator, behind which every rule may be entered. -/
theorem binary_soundly (hs : Safe bound self) (level : Nat) :
    WrapsSoundly bound rules (binary? self level) := by
  intro ts k ps hpick hroom
  unfold binary? at hpick
  obtain ⟨⟨precedence, width⟩, hoperator, hpick⟩ := Option.bind_eq_some_iff.1 hpick
  obtain ⟨_, -, hpick⟩ := Option.bind_eq_some_iff.1 hpick
  obtain ⟨-, rfl⟩ := Prod.mk.inj (Option.some.inj hpick)
  obtain ⟨hend, hwidth⟩ := operator_cases hoperator
  have hright : Keeps bound rulesPerToken fun us =>
      if (current ts == .isKw || current ts == .asKw) && startsType us && !aheadAt 1 .dot us then
        self .type us
      else if current ts == .questionQuestion then self (.binary precedence) us
      else self (.binary (precedence + 1)) us := by
    intro us hus
    dsimp only
    split
    · exact (hs.types us hus).toOrderly
    split
    · exact ((hs.binary _).mono (by decide) us hus).toOrderly
    · exact ((hs.binary _).mono (by decide) us hus).toOrderly
  rcases hwidth with rfl | ⟨rfl, hnext⟩
  · exact all_bump_advanced hend hroom (.cons hright .nil)
  · have hsecond := (bump_advanced (not_atEnd_of_current hnext (nth_bump hend 0))).cons
      hroom.bump (Keeps.cons hright .nil)
    exact (bump_advanced hend).andThen hsecond.toOrderly

/-- A binary expression commits with its first operand. -/
theorem binaryPhrase_commits (hs : Safe bound self) (level : Nat) :
    Commits bound 2 (binaryPhrase self level) :=
  flush_commits fun ts hready hroom =>
    wrapped_committed (binary_soundly hs level) hready hroom (hs.unary ts hroom)

/-- A conditional commits with its condition. -/
theorem conditional_commits (hs : Safe bound self) : Commits bound 3 (conditional self) := by
  refine flush_commits fun ts hready hroom => ?_
  refine extendIf_committed hready hroom (hs.binary 0 ts hroom) fun us hquestion hus => ?_
  exact all_bump_advanced (not_atEnd_of_ahead (by decide) hquestion) hus
    (.cons hs.expressions.keeps
      (.cons (expect_keeps (by decide)) (.cons hs.expressions.keeps .nil)))

/-! ## Statements -/

/-- Statements are repeated while the test sees a token: one that is stuck is skipped. -/
theorem statements_keeps (hs : Safe bound self) {look : Look}
    (hlook : ∀ ts, look ts = true → atEnd ts = false) :
    Keeps bound rulesPerToken
      (repeatWhile look (orWhenStuck (self .statement) (skip "Expected a statement"))) :=
  repeatWhile_keeps fun ts h hroom => orWhenStuck_skip_advanced _ hs.statements hroom (hlook ts h)

/-- A block commits with its brace. -/
theorem block_commits (hs : Safe bound self) : Commits bound rules (block self) :=
  .node (.bump (.later (statements_keeps hs not_atEnd_of_open)
    (.cons (expect_commits _ _ (by decide)) .nil))) _

/-- A block is read or complained about. -/
theorem requiredBlock_commits (hs : Safe bound self) : Commits bound rules (requiredBlock self) :=
  either_commits (fun ts _ hroom => block_commits hs ts hroom) (complain_commits _ _ _)

/-- A parameter of a lambda expects its name. -/
theorem lambdaParameter_commits (hs : Safe bound self) :
    Commits bound rulesPerToken (lambdaParameter self) :=
  .node (.later (hs.types.keeps.given _) (.cons (expect_commits _ _ (by decide)) .nil)) _

/-- The parameters of a lambda take their parenthesis. -/
theorem lambdaParameters_advanced (hs : Safe bound self) (hend : atEnd ts = false)
    (hroom : Room bound rules ts) : (lambdaParameters self ts).Advanced ts := by
  refine node_bump_advanced hend hroom (.cons (loop_keeps fun us _ hus => ?_)
    (.cons (expect_keeps (by decide)) .nil)) _
  have hitem := (lambdaParameter_commits hs us hus).toOrderly
  refine commaTurn_sound hitem ?_ (fun hagain => by simp [stop] at hagain)
  show ((if _ then skip "Expected a parameter" else done) (lambdaParameter self us).rest).Orderly _
  split
  · exact (skip_commits _ _ _ _ (hus.rest hitem.toFaithful)).toOrderly
  · exact orderly_of_idle []

/-- A lambda takes the token that its parameters start with. -/
theorem lambda_advanced (hs : Safe bound self) (hend : atEnd ts = false)
    (hroom : Room bound rules ts) : (lambda self ts).Advanced ts := by
  have hrest := hroom.rest (flush_faithful ts)
  have hend : atEnd (flush ts).rest = false := by rw [flush_atEnd, hend]
  have hparameters : (either (ahead .ident) (node .parameter [bump]) (lambdaParameters self)
      (flush ts).rest).Advanced (flush ts).rest := by
    unfold either
    split
    · exact node_bump_advanced hend hrest .nil _
    · exact lambdaParameters_advanced hs hend hrest
  have hbody : Keeps bound rulesPerToken (either (ahead .lBrace) (block self) (self .expression)) :=
    either_keeps (fun us _ hus => (block_commits hs us hus).toOrderly) hs.expressions.keeps
  exact node_advanced (hparameters.cons hrest (.cons (expect_keeps (by decide)) (.cons hbody .nil)))

/-- No lambda starts at the end of the file. -/
theorem atLambda_not_atEnd (h : atLambda ts = true) : atEnd ts = false := by
  unfold atLambda at h
  split at h
  · next hkinds =>
    exact not_atEnd_of_current (k := .ident) (by decide) (by simp [current, nth, hkinds])
  · next hkinds =>
    exact not_atEnd_of_current (k := .lParen) (by decide) (by simp [current, nth, hkinds])
  · exact absurd h (by decide)

/-- An expression is a lambda, a conditional or a complaint, and each of them commits. -/
theorem expressionPhrase_commits (hs : Safe bound self) :
    Commits bound 3 (expressionPhrase self) := by
  refine either_commits (fun ts _ _ => complain_committed _ ts) (either_commits
    (fun ts hlambda hroom => (lambda_advanced hs (atLambda_not_atEnd hlambda) hroom).toCommitted)
    (flush_commits fun ts hready hroom => ?_))
  refine extendIf_committed hready hroom (conditional_commits hs ts hroom) fun us hassign hus => ?_
  exact all_bump_advanced (not_atEnd_of (P := isAssignment) rfl hassign) hus
    (.cons hs.expressions.keeps .nil)

/-- A value commits with its equals sign. -/
theorem equalsValue_commits (hs : Safe bound self) : Commits bound rules (equalsValue self) :=
  .node (.bump (.cons hs.expressions .nil)) _

/-- Variables commit with their type. -/
theorem variableDeclaration_commits (hs : Safe bound self) (hrules : 1 ≤ rules) :
    Commits bound rules (variableDeclaration self) := by
  have hdeclarator : Commits bound rules (either (ahead .ident)
      (node .variableDeclarator [bump, given (ahead .eq) (equalsValue self)])
      (complain "Expected a variable name")) :=
    either_node_commits ahead_ident_not_atEnd (.cons ((equalsValue_commits hs).keeps.given _) .nil)
  exact .node (.cons (hs.type.mono hrules) (.cons (separated_keeps hdeclarator.keeps) .nil)) _

/-- A condition commits with its parenthesis. -/
theorem condition_commits (hs : Safe bound self) : Commits bound rulesPerToken (condition self) :=
  .cons (expect_commits _ _ (by decide))
    (.cons hs.expressions.keeps (.cons (expect_keeps (by decide)) .nil))

/-- A statement that is stuck is complained about. -/
theorem embedded_commits (hs : Safe bound self) : Commits bound rulesPerToken (embedded self) :=
  orWhenStuck_commits hs.statements (complain_commits _ _ _)

/-- The expressions in the head of a loop keep order. -/
theorem expressionList_keeps (hs : Safe bound self) (closing : Kind) :
    Keeps bound rulesPerToken (expressionList self closing) :=
  loop_keeps fun ts _ hroom => commaTurn_stop_sound (hs.expressions ts hroom).toOrderly

/-- A return or a throw commits with its keyword. -/
theorem valueJump_commits (hs : Safe bound self) (k : Kind) :
    Commits bound rules (valueJump self k) :=
  .node (.bump (.later (hs.expressions.keeps.given _)
    (.cons (expect_commits _ _ (by decide)) .nil))) _

/-- A break or a continue commits with its keyword. -/
theorem plainJump_commits (k : Kind) : Commits bound rules (plainJump k) :=
  .node (.bump (.cons (expect_commits _ _ (by decide)) .nil)) _

/-- No label starts at the end of the file. -/
theorem atSwitchLabel_not_atEnd (h : atSwitchLabel ts = true) : atEnd ts = false := by
  cases hend : atEnd ts with
  | false => rfl
  | true =>
      have hcurrent := (atEnd_iff ts).1 hend
      simp [atSwitchLabel, hcurrent] at h

/-- A label takes its keyword. -/
theorem switchLabel_advanced (hs : Safe bound self) (hend : atEnd ts = false)
    (hroom : Room bound rules ts) : (switchLabel self ts).Advanced ts := by
  unfold switchLabel either
  split
  · exact node_bump_advanced hend hroom
      (.cons hs.expressions.keeps (.cons (expect_keeps (by decide)) .nil)) _
  · exact node_bump_advanced hend hroom (.cons (expect_keeps (by decide)) .nil) _

/-- Trivia do not hide a label. -/
theorem atSwitchLabel_flush (ts : List Token) : atSwitchLabel (flush ts).rest = atSwitchLabel ts := by
  simp only [atSwitchLabel, current, nth, kinds_flush]

/-- A section is entered where a label is ahead, and takes it. -/
theorem switchSection_advanced (hs : Safe bound self) (hlabel : atSwitchLabel ts = true)
    (hroom : Room bound rulesPerToken ts) : (switchSection self ts).Advanced ts := by
  have hrest := hroom.rest (flush_faithful ts)
  have hlabels := repeatWhile_advanced (p := switchLabel self)
    (fun us h hus => switchLabel_advanced hs (atSwitchLabel_not_atEnd h) hus) hrest
    (by rw [atSwitchLabel_flush, hlabel])
  refine node_advanced (hlabels.cons hrest (.cons (statements_keeps hs fun us h => ?_) .nil))
  simpa using (Bool.and_eq_true_iff.1 h).2

/-- A switch commits with its keyword; each turn takes a section or skips a token. -/
theorem switchStatement_commits (hs : Safe bound self) :
    Commits bound rules (switchStatement self) := by
  refine .node (.bump (.cons (condition_commits hs) (.cons (expect_keeps (by decide))
    (.cons (repeatWhile_keeps fun ts hopen hroom => ?_)
      (.cons (expect_keeps (by decide)) .nil))))) _
  unfold either
  split
  · next hlabel => exact switchSection_advanced hs hlabel hroom
  · exact skip_advanced _ hroom (not_atEnd_of_open ts hopen)

/-- An if commits with its keyword. -/
theorem ifStatement_commits (hs : Safe bound self) : Commits bound rules (ifStatement self) := by
  have helse : Commits bound rulesPerToken (node .elseClause [bump, embedded self]) :=
    .node (.bump (.cons (embedded_commits hs) .nil)) _
  exact .node (.bump (.cons (condition_commits hs) (.cons (embedded_commits hs).keeps
    (.cons (helse.keeps.given _) .nil)))) _

/-- A while loop commits with its keyword. -/
theorem whileStatement_commits (hs : Safe bound self) :
    Commits bound rules (whileStatement self) :=
  .node (.bump (.cons (condition_commits hs) (.cons (embedded_commits hs).keeps .nil))) _

/-- A do loop commits with its keyword. -/
theorem doStatement_commits (hs : Safe bound self) : Commits bound rules (doStatement self) :=
  .node (.bump (.cons (embedded_commits hs) (.cons (expect_keeps (by decide))
    (.cons (condition_commits hs).keeps (.cons (expect_keeps (by decide)) .nil))))) _

/-- A for loop commits with its keyword. -/
theorem forStatement_commits (hs : Safe bound self) : Commits bound rules (forStatement self) := by
  have hstart : Keeps bound rulesPerToken (either atLocalDeclaration (variableDeclaration self)
      (expressionList self .semicolon)) :=
    either_keeps
      (fun ts _ hroom => (variableDeclaration_commits hs (by decide) ts hroom).toOrderly)
      (expressionList_keeps hs .semicolon)
  exact .node (.bump (.cons (expect_commits _ _ (by decide)) (.cons hstart
    (.cons (expect_keeps (by decide)) (.cons (hs.expressions.keeps.given _)
      (.cons (expect_keeps (by decide)) (.cons (expressionList_keeps hs .rParen)
        (.cons (expect_keeps (by decide)) (.cons (embedded_commits hs).keeps .nil))))))))) _

/-- A loop over a collection commits with its keyword. -/
theorem forEachStatement_commits (hs : Safe bound self) :
    Commits bound rules (forEachStatement self) :=
  .node (.bump (.cons (expect_commits _ _ (by decide)) (.cons hs.types.keeps
    (.cons (expect_keeps (by decide)) (.cons (expect_keeps (by decide))
      (.cons hs.expressions.keeps (.cons (expect_keeps (by decide))
        (.cons (embedded_commits hs).keeps .nil)))))))) _

/-- A using statement commits with its keyword. -/
theorem usingStatement_commits (hs : Safe bound self) :
    Commits bound rules (usingStatement self) := by
  have hresource : Commits bound rulesPerToken
      (either atLocalDeclaration (variableDeclaration self) (self .expression)) :=
    either_commits (fun ts _ hroom => variableDeclaration_commits hs (by decide) ts hroom)
      hs.expressions
  exact .node (.bump (.bump (.cons hresource
    (.cons (expect_keeps (by decide)) (.cons (embedded_commits hs).keeps .nil))))) _

/-- A catch clause takes its keyword. -/
theorem catchClause_advanced (hs : Safe bound self) (hend : atEnd ts = false)
    (hroom : Room bound rules ts) : (catchClause self ts).Advanced ts := by
  have hdeclaration : Commits bound rulesPerToken
      (node .catchDeclaration [bump, self .type, eat .ident, expect .rParen]) :=
    .node (.bump (.cons hs.types (.cons (eat_keeps _ _ (by decide))
      (.cons (expect_keeps (by decide)) .nil)))) _
  exact node_bump_advanced hend hroom
    (.cons (hdeclaration.keeps.given _) (.cons (requiredBlock_commits hs).keeps .nil)) _

/-- A try commits with its keyword. -/
theorem tryStatement_commits (hs : Safe bound self) : Commits bound rules (tryStatement self) := by
  have hcatches : Keeps bound rulesPerToken (repeatWhile (ahead .catchKw) (catchClause self)) :=
    repeatWhile_keeps fun ts h hroom =>
      catchClause_advanced hs (not_atEnd_of_ahead (by decide) h) hroom
  have hfinally : Commits bound rulesPerToken (node .finallyClause [bump, requiredBlock self]) :=
    .node (.bump (.cons (requiredBlock_commits hs) .nil)) _
  exact .node (.bump (.cons (requiredBlock_commits hs) (.cons hcatches
    (.cons (hfinally.keeps.given _) .nil)))) _

/-- A local declaration behind `using` or `const`. -/
theorem localDeclaration_bump_commits (hs : Safe bound self) :
    Commits bound rules (localDeclaration self [bump]) :=
  .node (.bump (.cons (variableDeclaration_commits hs (by decide))
    (.cons (expect_keeps (by decide)) .nil))) _

/-- A local declaration commits with the type of its variables. -/
theorem localDeclaration_commits (hs : Safe bound self) :
    Commits bound 4 (localDeclaration self []) :=
  .node (.cons (variableDeclaration_commits hs (by decide))
    (.cons (expect_keeps (by decide)) .nil)) _

/-- A statement keeps order whatever the next token is: with a keyword it takes that, otherwise
it is a declaration or an expression, and where neither starts it does nothing. -/
theorem statementPhrase_keeps (hs : Safe bound self) : Keeps bound 4 (statementPhrase self) := by
  intro ts hroom
  show (statementFor self (current ts) ts).Orderly ts
  generalize hp : statementFor self (current ts) = p
  unfold statementFor at hp
  split at hp <;> subst hp
  · exact (block_commits hs ts hroom).toOrderly
  · next hsemicolon =>
    have hend := not_atEnd_of_current (by decide) hsemicolon
    exact (node_bump_advanced hend hroom .nil _).toOrderly
  · exact (ifStatement_commits hs ts hroom).toOrderly
  · exact (switchStatement_commits hs ts hroom).toOrderly
  · exact (valueJump_commits hs _ ts hroom).toOrderly
  · exact (valueJump_commits hs _ ts hroom).toOrderly
  · exact (plainJump_commits _ ts hroom).toOrderly
  · exact (plainJump_commits _ ts hroom).toOrderly
  · exact (whileStatement_commits hs ts hroom).toOrderly
  · exact (doStatement_commits hs ts hroom).toOrderly
  · exact (forStatement_commits hs ts hroom).toOrderly
  · exact (forEachStatement_commits hs ts hroom).toOrderly
  · exact (tryStatement_commits hs ts hroom).toOrderly
  · exact either_keeps (fun us _ hus => (usingStatement_commits hs us hus).toOrderly)
      (localDeclaration_bump_commits hs).keeps ts hroom
  · exact (localDeclaration_bump_commits hs ts hroom).toOrderly
  · have hexpression : Commits bound 4
        (node .expressionStatement [self .expression, expect .semicolon]) :=
      .node (.cons hs.expression (.cons (expect_keeps (by decide)) .nil)) _
    exact either_keeps (fun us _ hus => (localDeclaration_commits hs us hus).toOrderly)
      (hexpression.keeps.given _) ts hroom

end CodeMend.Parse
