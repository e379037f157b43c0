import CodeMend.Proofs.Parser.Grammar
import CodeMend.Proofs.Parser.Phrases

/-!
# Declarations keep order

The contracts of the second half of the grammar, up to `Safe.phrase`: what the rules promise each
other holds of `phrase` one level deeper.  Hence it holds of `unfold` at every depth
(`unfold_safe`), and a source file is read from its first to its last token.

The depth is never used up: a rule that is entered before the end of the file has room for it, and
at the end of the file every rule stops within two levels.
-/

namespace CodeMend.Parse

open Tree

variable {bound rules : Nat} {self : Rule → Parser} {ts : List Token}

/-! ## Members -/

/-- A parser that keeps order does not drift. -/
theorem Keeps.drifts {p : Parser} (hp : Keeps bound rules p) : Drifts bound rules p :=
  fun ts hroom => ⟨(hp ts hroom).toFaithful, fun herr => Or.inl ((hp ts hroom).ends herr)⟩

/-- One turn of a loop over members takes a token, and where it drifts, the next turn
complains. -/
theorem Drifts.turn {p : Parser} (hp : Drifts bound rules p) {look : Look} (message : String)
    (hlook : ∀ ts, look ts = true → atEnd ts = false)
    (hflush : ∀ ts, look (flush ts).rest = look ts) (ts : List Token) (hts : look ts = true)
    (hroom : Room bound rules ts) : DriftsOnce look (orWhenStuck p (skip message)) ts := by
  obtain ⟨hfaithful, hdrifts⟩ := hp ts hroom
  have hmoved := orWhenStuck_skip_moved message hfaithful hroom (hlook ts hts)
  cases hstuck : stuck ts (p ts) with
  | true =>
      have hstep : orWhenStuck p (skip message) ts = (p ts).andThen (skip message) := by
        simp [orWhenStuck, hstuck]
      have hskip := skip_commits bound rules message _ (hroom.rest hfaithful)
      refine ⟨?_, hmoved, fun herr => ?_⟩
      · rw [hstep]
        exact hfaithful.andThen hskip.toFaithful
      · rw [hstep] at herr
        exact absurd (Step.andThen_errors.1 herr).2 (skip_errors message _)
  | false =>
      have hstep : orWhenStuck p (skip message) ts = p ts := by simp [orWhenStuck, hstuck]
      refine ⟨hstep ▸ hfaithful, hmoved, fun herr => ?_⟩
      rw [hstep] at herr ⊢
      refine (hdrifts herr).imp_right fun hdrift => ?_
      rw [hdrift.1]
      have hagain : stuck (flush ts).rest (p (flush ts).rest) = true := by simp [stuck, hdrift.2]
      simp only [orWhenStuck, hagain, if_true]
      exact ⟨by rw [hflush, hts], fun h => skip_errors message _ (Step.andThen_errors.1 h).2⟩

/-- A loop over members that may drift keeps order, since a turn that is stuck skips a token and
complains. -/
theorem Drifts.repeatWhile_keeps {p : Parser} (hp : Drifts bound rules p) {look : Look}
    (message : String) (hlook : ∀ ts, look ts = true → atEnd ts = false)
    (hflush : ∀ ts, look (flush ts).rest = look ts) :
    Keeps bound rules (repeatWhile look (orWhenStuck p (skip message))) :=
  fun ts hroom => (turns_orderly_of_drift (hp.turn message hlook hflush) ts.length ts
    (Nat.le_refl _) hroom).1

/-- Declarations are repeated up to the end of the file. -/
theorem declarations_keeps (hs : Safe bound self) : Keeps bound 2 (declarations self) :=
  (hs.member none).repeatWhile_keeps _ (fun ts h => by simpa using h) fun ts => by rw [flush_atEnd]

/-- Behind the declarations of a file, only its end is ahead. -/
theorem declarations_atEnd (hs : Safe bound self) (hroom : Room bound 2 ts) :
    atEnd (declarations self ts).rest = true := by
  have hturn : ∀ us, (!atEnd us) = true → Room bound 2 us → DriftsOnce (fun us => !atEnd us)
      (orWhenStuck (self (.member none)) (skip "Expected a declaration")) us :=
    (hs.member none).turn _ (fun us h => by simpa using h) (fun us => by rw [flush_atEnd])
  have hrest : (!atEnd (declarations self ts).rest) = false :=
    turns_rest hturn ts.length ts (Nat.le_refl _) hroom
  simpa using hrest

/-- Members are repeated up to the closing brace. -/
theorem memberList_keeps (hs : Safe bound self) (enclosing : Option String) :
    Keeps bound 2 (memberList self enclosing) :=
  (hs.member enclosing).repeatWhile_keeps _ not_atEnd_of_open fun ts => by
    rw [flush_atEnd]
    simp only [ahead, current_flush]

/-- A using directive commits with its keyword. -/
theorem usingDirective_commits : Commits bound rules usingDirective := by
  refine .node (.bump (.later (eat_keeps _ _ (by decide)) (.later (given_keeps fun ts h _ => ?_)
    (.cons name_commits (.cons (expect_keeps (by decide)) .nil))))) _
  obtain ⟨hident, heq⟩ := Bool.and_eq_true_iff.1 h
  refine (bump_bump_advanced (ahead_ident_not_atEnd ts hident) ?_).toOrderly
  rw [show nth 1 ts = .eq by simpa [aheadAt] using heq]
  decide

/-- A namespace commits with its keyword, in both of its forms. -/
theorem namespaceDeclaration_commits (hs : Safe bound self) :
    Commits bound rules (namespaceDeclaration self) := by
  have hfile : ∀ ts, ahead .semicolon ts = true → Room bound rulesPerToken ts →
      (all [bump, declarations self] ts).Orderly ts := fun ts h hroom =>
    (all_bump_advanced (not_atEnd_of_ahead (by decide) h) hroom
      (.cons ((declarations_keeps hs).mono (by decide)) .nil)).toOrderly
  have hbraces : Keeps bound rulesPerToken
      (all [expect .lBrace, memberList self none, expect .rBrace]) :=
    .cons (expect_keeps (by decide)) (.cons ((memberList_keeps hs none).mono (by decide))
      (.cons (expect_keeps (by decide)) .nil))
  exact .node (.bump (.cons name_commits (.cons (either_keeps hfile hbraces) .nil))) _

/-- Type parameters commit with their bracket. -/
theorem typeParameters_commits : Commits bound rules typeParameters := by
  have hitem : Commits bound rulesPerToken (either (ahead .ident) (node .typeParameter [bump])
      (complain "Expected a type parameter")) := either_node_commits ahead_ident_not_atEnd .nil
  exact .node (.bump (.cons (separated_commits hitem) (.cons (expect_keeps (by decide)) .nil))) _

/-- Base types commit with their colon. -/
theorem baseList_commits (hs : Safe bound self) : Commits bound rules (baseList self) :=
  .node (.bump (.cons (separated_commits hs.types) .nil)) _

/-- The tokens of constraints are taken up to the body, never past the end of the file. -/
theorem constraints_keeps : Keeps bound rules constraints := by
  refine repeatWhile_keeps fun ts h hroom => ?_
  have hcurrent : current ts = .ident := by simpa [ahead] using (Bool.and_eq_true_iff.1 h).1
  refine repeatWhile_advanced (fun us hus _ => bump_advanced ?_) hroom ?_
  · simp only [Bool.and_eq_true, Bool.not_eq_true'] at hus
    exact hus.1.1
  · simp [atEnd, ahead, hcurrent]

/-- A type takes its keyword. -/
theorem typeDeclaration_advanced (hs : Safe bound self) (hend : atEnd ts = false)
    (hroom : Room bound rules ts) : (typeDeclaration self ts).Advanced ts := by
  refine all_bump_advanced hend hroom (.cons (fun us hus => ?_) .nil)
  have hparts : Keeps bound rulesPerToken (all [expect .ident,
      given (ahead .lt) typeParameters, given (ahead .colon) (baseList self), constraints,
      expect .lBrace, memberList self (some (currentText us)), expect .rBrace, eat .semicolon]) :=
    .cons (expect_keeps (by decide)) (.cons (typeParameters_commits.keeps.given _)
      (.cons ((baseList_commits hs).keeps.given _) (.cons constraints_keeps
        (.cons (expect_keeps (by decide)) (.cons ((memberList_keeps hs _).mono (by decide))
          (.cons (expect_keeps (by decide)) (.cons (eat_keeps _ _ (by decide)) .nil)))))))
  exact hparts us hus

/-- A member of an enumeration expects its name. -/
theorem enumMember_commits (hs : Safe bound self) :
    Commits bound rulesPerToken (enumMember self) :=
  .node (.later (attributeLists_keeps hs) (.cons (expect_commits _ _ (by decide))
    (.cons ((equalsValue_commits hs).keeps.given _) .nil))) _

/-- Each turn of an enumeration takes a member, a comma or a token that is skipped. -/
theorem enumMembers_keeps (hs : Safe bound self) :
    Keeps bound rulesPerToken (enumMembers self) := by
  refine loop_keeps fun ts hopen hroom => ?_
  have hitem := (enumMember_commits hs).keeps.given
    (fun ts => ahead .ident ts || ahead .lBracket ts) ts hroom
  generalize given (fun ts => ahead .ident ts || ahead .lBracket ts) (enumMember self) = item
    at hitem ⊢
  cases hstuck : stuck ts (item ts) with
  | false =>
      refine commaTurn_sound hitem ?_ (fun _ h => by simp [hstuck] at h)
      simp only [hstuck, Bool.false_eq_true, if_false]
      split
      · exact orderly_of_idle []
      · exact (complain_committed _ _).toOrderly
  | true =>
      have hend : atEnd (item ts).rest = false := by
        rw [hitem.rest_eq_of_stuck hstuck]
        exact not_atEnd_of_open ts hopen
      have hskip := skip_advanced "Expected an enum member" (hroom.rest hitem.toFaithful) hend
      refine commaTurn_sound hitem ?_ (fun _ _ => ?_)
      · rw [hstuck]
        exact hskip.toOrderly
      · rw [hstuck]
        exact hskip.moved

/-- An enumeration takes its keyword. -/
theorem enumDeclaration_advanced (hs : Safe bound self) (hend : atEnd ts = false)
    (hroom : Room bound rules ts) : (enumDeclaration self ts).Advanced ts :=
  all_bump_advanced hend hroom
    (.cons (expect_keeps (by decide)) (.cons ((baseList_commits hs).keeps.given _)
      (.cons (expect_keeps (by decide)) (.cons (enumMembers_keeps hs)
        (.cons (expect_keeps (by decide)) (.cons (eat_keeps _ _ (by decide)) .nil))))))

/-- A parameter keeps order, also where none starts. -/
theorem parameter_keeps (hs : Safe bound self) : Keeps bound rulesPerToken (parameter self) := by
  have hmodifiers : Keeps bound rulesPerToken (repeatWhile atParameterModifier bump) :=
    repeatWhile_bump_keeps fun ts h => not_atEnd_of
      (P := fun k => [Kind.refKw, .outKw, .inKw, .paramsKw, .thisKw].contains k) rfl h
  have hnode : Commits bound rulesPerToken (node .parameter
      [attributeLists self, repeatWhile atParameterModifier bump, self .type, expect .ident,
       given (ahead .eq) (equalsValue self)]) :=
    .node (.later (attributeLists_keeps hs) (.later hmodifiers (.cons hs.types
      (.cons (expect_keeps (by decide)) (.cons ((equalsValue_commits hs).keeps.given _) .nil))))) _
  exact hnode.keeps.given _

/-- Parameters commit with their parenthesis; a turn that is stuck complains and ends the loop.
-/
theorem parameterList_commits (hs : Safe bound self) :
    Commits bound rulesPerToken (parameterList self) := by
  refine .node (.cons (expect_commits _ _ (by decide))
    (.cons (Keeps.given (loop_keeps fun ts _ hroom => ?_) _)
      (.cons (expect_keeps (by decide)) .nil))) _
  have hitem := parameter_keeps hs ts hroom
  dsimp only
  split
  · exact ⟨hitem.andThen (complain_committed _ _).toOrderly, fun hagain => by simp at hagain⟩
  split
  · next hcomma =>
    have hadvanced := hitem.andAdvance (bump_advanced (not_atEnd_of_ahead (by decide) hcomma))
    exact ⟨hadvanced.toOrderly, fun _ => hadvanced.moved⟩
  · exact ⟨hitem, fun hagain => by simp at hagain⟩

/-- An arrow clause commits with its arrow. -/
theorem arrowClause_commits (hs : Safe bound self) : Commits bound rules (arrowClause self) :=
  .node (.bump (.cons hs.expressions .nil)) _

/-- A body is read or complained about. -/
theorem body_commits (hs : Safe bound self) : Commits bound rules (body self) := by
  have harrow : Commits bound rules (all [arrowClause self, expect .semicolon]) :=
    .cons (arrowClause_commits hs) (.cons (expect_keeps (by decide)) .nil)
  exact either_commits (fun ts _ hroom => block_commits hs ts hroom)
    (either_commits (fun ts _ hroom => harrow ts hroom) (expect_commits _ _ (by decide)))

/-- The call of another constructor commits with its colon. -/
theorem constructorInitializer_commits (hs : Safe bound self) :
    Commits bound rules (constructorInitializer self) := by
  have htarget : Commits bound rulesPerToken (either (fun ts => ahead .baseKw ts || ahead .thisKw ts)
      bump (complain "Expected 'base' or 'this'")) :=
    either_commits (fun ts h _ => (bump_advanced (not_atEnd_of
      (P := fun k => k == .baseKw || k == .thisKw) rfl h)).toCommitted) (complain_commits _ _ _)
  have harguments : Commits bound rulesPerToken
      (either (ahead .lParen) (argumentList self) (complain "Expected '('")) :=
    either_commits (fun ts _ hroom => argumentList_commits hs ts hroom) (complain_commits _ _ _)
  exact .node (.bump (.cons htarget (.cons harguments.keeps .nil))) _

/-- A constructor commits with its name. -/
theorem constructor_commits (hs : Safe bound self) : Commits bound rules (constructor self) :=
  .bump (.cons (parameterList_commits hs)
    (.cons ((constructorInitializer_commits hs).keeps.given _)
      (.cons (body_commits hs).keeps .nil)))

/-- A method commits with its type. -/
theorem method_commits (hs : Safe bound self) : Commits bound 1 (method self) :=
  .cons hs.type (Commits.bump (.later (typeParameters_commits.keeps.given _)
    (.cons (parameterList_commits hs)
      (.cons constraints_keeps (.cons (body_commits hs).keeps .nil))))).keeps

/-- An accessor keeps order, also where none starts. -/
theorem accessor_keeps (hs : Safe bound self) : Keeps bound rulesPerToken (accessor self) := by
  have hnode : Commits bound rulesPerToken
      (node .accessorDeclaration [attributeLists self, modifiers, expect .ident, body self]) :=
    .node (.later (attributeLists_keeps hs) (.later modifiers_keeps
      (.cons (expect_commits _ _ (by decide)) (.cons (body_commits hs).keeps .nil)))) _
  exact hnode.keeps.given _

/-- Accessors commit with their brace. -/
theorem accessorList_commits (hs : Safe bound self) : Commits bound rules (accessorList self) :=
  .node (.bump (.later
    (repeatWhile_keeps fun ts hopen hroom =>
      orWhenStuck_skip_advanced _ (accessor_keeps hs) hroom (not_atEnd_of_open ts hopen))
    (.cons (expect_commits _ _ (by decide)) .nil))) _

/-- A property commits with its type. -/
theorem property_commits (hs : Safe bound self) : Commits bound 1 (property self) := by
  have harrow : Commits bound rulesPerToken (all [arrowClause self, expect .semicolon]) :=
    .cons (arrowClause_commits hs) (.cons (expect_keeps (by decide)) .nil)
  have hvalue : Keeps bound rulesPerToken
      (given (ahead .eq) (all [equalsValue self, expect .semicolon])) :=
    (Keeps.cons (equalsValue_commits hs).keeps (.cons (expect_keeps (by decide)) .nil)).given _
  have haccessors : Commits bound rulesPerToken
      (all [accessorList self, given (ahead .eq) (all [equalsValue self, expect .semicolon])]) :=
    .cons (accessorList_commits hs) (.cons hvalue .nil)
  exact .cons hs.type (Commits.bump (.cons
    (either_commits (fun ts _ hroom => harrow ts hroom) haccessors) .nil)).keeps

/-- A field commits with the type of its variables. -/
theorem field_commits (hs : Safe bound self) : Commits bound 1 (field self) :=
  .cons (variableDeclaration_commits hs (Nat.le_refl 1)) (.cons (expect_keeps (by decide)) .nil)

/-- A member without a name complains. -/
theorem nameless_commits : Commits bound rules nameless := by
  refine .cons (complain_commits _ _ _) (.cons (repeatWhile_bump_keeps fun ts h => ?_)
    (.cons (eat_keeps _ _ (by decide)) .nil))
  simp only [Bool.and_eq_true, Bool.not_eq_true'] at h
  exact h.1.1.1

/-- Whatever declaration the tokens ahead tell, it commits: it is picked by a keyword, by a name
that is ahead, or by a type. -/
theorem declaration_committed (hs : Safe bound self) {enclosing : Option String} {k : Kind}
    {p : Parser} (h : declaration? self enclosing ts = some (k, p)) (hroom : Room bound 1 ts) :
    (p ts).Committed ts := by
  cases declares_of_declaration? h with
  | type keyword kind =>
      have hend : atEnd ts = false := not_atEnd_of_mem (by decide) keyword
      exact (typeDeclaration_advanced hs hend hroom).toCommitted
  | enum keyword =>
      have hend : atEnd ts = false := not_atEnd_of_current (by decide) keyword
      exact (enumDeclaration_advanced hs hend hroom).toCommitted
  | constructor => exact constructor_commits hs ts hroom
  | method => exact method_commits hs ts hroom
  | property => exact property_commits hs ts hroom
  | field => exact field_commits hs ts hroom
  | nameless => exact nameless_commits ts hroom

/-- A declaration is orderly, or it found nothing behind the trivia. -/
theorem declared_cases (hs : Safe bound self) (enclosing : Option String) (hready : Ready ts)
    (hroom : Room bound 1 ts) :
    (declared self enclosing ts).Committed ts ∨
      (declared self enclosing ts).Faithful ts ∧ (declared self enclosing ts).rest = ts := by
  have hlead : (all [attributeLists self, modifiers] ts).Orderly ts :=
    Keeps.cons (attributeLists_keeps hs) (.cons modifiers_keeps .nil) ts hroom
  have hrest := hroom.rest hlead.toFaithful
  unfold declared
  dsimp only
  split
  · next k p hp =>
    exact Or.inl (under_committed (p := fun _ => Step.andThen _ p) hready
      (hlead.andCommit (declaration_committed hs hp hrest)))
  split
  · next hstuck => exact Or.inr ⟨hlead.toFaithful, hlead.rest_eq_of_stuck hstuck⟩
  · exact Or.inl (under_committed (p := fun _ => Step.andThen _ (complain _)) hready
      (hlead.andCommit (complain_committed _ _)))

/-- Where no trivia stand in front, there is none to put in place. -/
theorem flush_of_ready (hready : Ready ts) : (flush ts).rest = ts := by
  cases ts with
  | nil => rfl
  | cons t ts => simp [flush, hready t rfl]

/-- A declaration keeps order, except that it may put trivia in place and then find nothing that
it could be. -/
theorem declaration_drifts (hs : Safe bound self) (enclosing : Option String) :
    Drifts bound 1 (declaration self enclosing) := by
  intro ts hroom
  have hready := flush_ready ts
  rcases declared_cases hs enclosing hready (hroom.rest (flush_faithful ts)) with
    hcommitted | ⟨hfaithful, hrest⟩
  · have hwhole : (declaration self enclosing ts).Committed ts := flush_committed hcommitted
    exact ⟨hwhole.toFaithful, fun herr => Or.inl (hwhole.ends herr)⟩
  · have hstep : ∀ us, declaration self enclosing us =
        (flush us).andThen (declared self enclosing) :=
      fun us => congrFun (all_pair flush (declared self enclosing)) us
    refine ⟨?_, fun _ => Or.inr ⟨?_, ?_⟩⟩
    · rw [hstep]
      exact (flush_faithful ts).andThen hfaithful
    · rw [hstep]
      exact hrest
    · rw [hstep]
      show (declared self enclosing (flush (flush ts).rest).rest).rest = _
      rw [flush_of_ready hready, hrest]

/-- A member keeps order or drifts, whatever the next token is. -/
theorem memberFor_drifts (hs : Safe bound self) (enclosing : Option String) (k : Kind) :
    Drifts bound 1 (memberFor self enclosing k) := by
  generalize hp : memberFor self enclosing k = p
  unfold memberFor at hp
  split at hp <;> subst hp
  · cases enclosing with
    | none => exact usingDirective_commits.keeps.drifts
    | some name => exact declaration_drifts hs (some name)
  · exact (namespaceDeclaration_commits hs).keeps.drifts
  · exact (done_keeps _ _).drifts
  · exact (done_keeps _ _).drifts
  · exact (done_keeps _ _).drifts
  · exact declaration_drifts hs enclosing

/-- The same for the rule of members, which looks at the next token. -/
theorem memberPhrase_drifts (hs : Safe bound self) (enclosing : Option String) :
    Drifts bound 1 (memberPhrase self enclosing) := by
  intro ts hroom
  have hdrifts := memberFor_drifts hs enclosing (current ts) ts hroom
  rw [← current_flush ts] at hdrifts
  simpa only [memberPhrase, current_flush] using hdrifts

/-! ## Any depth -/

/-- One rule less to enter is one level less that is needed. -/
theorem Room.deeper (h : Room (bound + 1) (rules + 1) ts) : Room bound rules ts :=
  ⟨h.ended, h.room.imp_right fun hroom => by omega⟩

/-- What commits one level down commits here. -/
theorem Commits.deeper {p : Parser} (h : Commits bound rules p) :
    Commits (bound + 1) (rules + 1) p := fun ts hroom => h ts hroom.deeper

/-- What the rules promise each other holds one level deeper. -/
theorem Safe.phrase (hs : Safe bound self) : Safe (bound + 1) (phrase self) where
  type := (typePhrase_commits hs).deeper
  unary := (unaryPhrase_commits hs).deeper
  binary := fun level => (binaryPhrase_commits hs level).deeper
  expression := (expressionPhrase_commits hs).deeper
  statement := fun ts hroom => statementPhrase_keeps hs ts hroom.deeper
  member := fun enclosing ts hroom => memberPhrase_drifts hs enclosing ts hroom.deeper

/-- Without room, the file is at its end. -/
theorem Room.atEnd (h : Room bound rules ts) (hbound : bound < rulesPerToken) :
    atEnd ts = true := by
  refine h.room.resolve_right fun hroom => ?_
  obtain ⟨t, ht, _⟩ := h.ended
  have hpos := Nat.mul_le_mul_left rulesPerToken (List.length_pos_of_mem ht)
  omega

/-- At the end of the file a type is complained about. -/
theorem typePhrase_atEnd (self : Rule → Parser) (hend : atEnd ts = true) :
    typePhrase self ts = complain "Expected a type" ts := by
  simp [typePhrase, either, ahead, startsType, (atEnd_iff ts).1 hend,
    show Kind.endOfFile.isPredefinedType = false from rfl]

/-- No expression starts at the end of the file. -/
theorem atExpression_atEnd (hend : atEnd ts = true) : atExpression ts = false := by
  unfold atExpression
  rw [(atEnd_iff ts).1 hend]
  rfl

/-- At the end of the file an expression is complained about. -/
theorem expressionPhrase_atEnd (self : Rule → Parser) (hend : atEnd ts = true) :
    expressionPhrase self ts = complain "Expected an expression" ts := by
  simp [expressionPhrase, either, atExpression_atEnd hend]

/-- There is no type at the end of the file to look past. -/
theorem pastType_atEnd (nullable : Bool) (hend : atEnd ts = true) : pastType nullable ts = none := by
  have hcurrent := (atEnd_iff ts).1 hend
  unfold pastType
  cases hkinds : kinds ts with
  | nil => rfl
  | cons k ks =>
      obtain rfl : k = .endOfFile := by simpa [current, nth, hkinds] using hcurrent
      rfl

/-- At the end of the file a statement does nothing. -/
theorem statementPhrase_atEnd (self : Rule → Parser) (hend : atEnd ts = true) :
    statementPhrase self ts = done ts := by
  have hlocal : atLocalDeclaration ts = false := by simp [atLocalDeclaration, pastType_atEnd _ hend]
  simp [statementPhrase, statementFor, (atEnd_iff ts).1 hend, given, either, hlocal,
    atExpression_atEnd hend]

/-- At the end of the file a member does nothing. -/
theorem memberPhrase_atEnd (self : Rule → Parser) (enclosing : Option String)
    (hend : atEnd ts = true) : memberPhrase self enclosing ts = done ts := by
  simp [memberPhrase, memberFor, (atEnd_iff ts).1 hend]

/-- Without room an operand complains, since the file is at its end. -/
theorem unaryPhrase_commits_atEnd (self : Rule → Parser) : Commits 0 rules (unaryPhrase self) := by
  intro ts hroom
  have hcurrent := (atEnd_iff ts).1 (hroom.atEnd (by decide))
  have hstep : unaryPhrase self ts = suffixPhrase self ts := by
    unfold unaryPhrase
    rw [hcurrent]
    rfl
  rw [hstep]
  refine flush_committed ?_
  rw [current_flush, hcurrent]
  exact complain_committed _ _

/-- There is no operator at the end of the file. -/
theorem operator_atEnd (hend : atEnd ts = true) : operator? ts = none := by
  cases hoperator : operator? ts with
  | none => rfl
  | some found =>
      rw [(operator_cases hoperator).1] at hend
      exact absurd hend (by decide)

/-- Without room nothing goes on with a binary expression. -/
theorem binary_soundly_atEnd (self : Rule → Parser) (level : Nat) :
    WrapsSoundly 0 rules (binary? self level) := by
  intro ts k ps hpick hroom
  obtain ⟨found, hoperator, -⟩ := Option.bind_eq_some_iff.1 hpick
  rw [operator_atEnd (hroom.atEnd (by decide))] at hoperator
  exact absurd hoperator (by simp)

/-- At the end of the file every rule stops within two levels. -/
theorem safe_phrase_phrase (self : Rule → Parser) : Safe 0 (phrase (phrase self)) where
  type := by
    intro ts hroom
    show (typePhrase _ ts).Committed ts
    rw [typePhrase_atEnd _ (hroom.atEnd (by decide))]
    exact complain_committed _ ts
  unary := unaryPhrase_commits_atEnd _
  binary := fun level => flush_commits fun ts hready hroom =>
    wrapped_committed (binary_soundly_atEnd _ level) hready hroom
      (unaryPhrase_commits_atEnd self ts hroom)
  expression := by
    intro ts hroom
    show (expressionPhrase _ ts).Committed ts
    rw [expressionPhrase_atEnd _ (hroom.atEnd (by decide))]
    exact complain_committed _ ts
  statement := by
    intro ts hroom
    show (statementPhrase _ ts).Orderly ts
    rw [statementPhrase_atEnd _ (hroom.atEnd (by decide))]
    exact orderly_of_idle []
  member := by
    intro enclosing ts hroom
    have hend := hroom.atEnd (by decide)
    show (memberPhrase _ enclosing ts).Faithful ts ∧ ((memberPhrase _ enclosing ts).errors = [] →
      EndsSignificant (tokensAll (memberPhrase _ enclosing ts).built) ∨ _)
    rw [memberPhrase_atEnd _ enclosing hend]
    exact ⟨(orderly_of_idle []).toFaithful, fun herr => Or.inl ((orderly_of_idle []).ends herr)⟩

/-- What holds without any room holds as long as there is not enough for a token. -/
theorem Safe.ofEnd (hs : Safe 0 self) (hbound : bound < rulesPerToken) : Safe bound self := by
  have hend : ∀ {rules ts}, Room bound rules ts → Room 0 rules ts := fun hroom =>
    ⟨hroom.ended, Or.inl (hroom.atEnd hbound)⟩
  exact {
    type := fun ts hroom => hs.type ts (hend hroom)
    unary := fun ts hroom => hs.unary ts (hend hroom)
    binary := fun level ts hroom => hs.binary level ts (hend hroom)
    expression := fun ts hroom => hs.expression ts (hend hroom)
    statement := fun ts hroom => hs.statement ts (hend hroom)
    member := fun enclosing ts hroom => hs.member enclosing ts (hend hroom) }

/-- **The rules keep order at every depth.** -/
theorem unfold_safe (n : Nat) : Safe (n + 2) (unfold (n + 2)) := by
  induction n with
  | zero => exact (safe_phrase_phrase (unfold 0)).ofEnd (by decide)
  | succ n ih => exact ih.phrase

end CodeMend.Parse
