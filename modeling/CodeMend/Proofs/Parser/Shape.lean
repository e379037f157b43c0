import CodeMend.Proofs.Parser.Building
import CodeMend.Proofs.Parser.Depth
import CodeMend.Proofs.Parser.Lossless

/-!
# Shapes of nodes

`Shaped` puts together what is asked about nodes elsewhere: a declarator and a member of an
enumeration have a name right below them, a label of a switch section has a colon, and every opening
brace of a body has a closing one behind it (`parse_shaped`).
-/

namespace CodeMend

namespace Parse

open Tree

/-! ## The shapes -/

/-- Behind every opening brace of a row stands a closing one. -/
def Closed (cs : List Tree) : Prop :=
  ∀ before brace after, cs = before ++ brace :: after → brace.isTokenOf .lBrace = true →
    ∃ closing ∈ after, closing.isTokenOf .rBrace = true

/-- A row with a body in braces. -/
def Bodied (cs : List Tree) : Prop := Closed cs ∧ ∃ text, .token .rBrace text ∈ cs

/-- The shape of a node: what declares a constant has a name right below it, a label of a switch
section has a colon, and the braces of what has a body are closed; a type has a body and a name. -/
def Shaped (k : Kind) (cs : List Tree) : Prop :=
  match k with
  | .variableDeclarator | .enumMemberDeclaration => ∃ text, .token .ident text ∈ cs
  | .caseSwitchLabel | .defaultSwitchLabel => ∃ text, .token .colon text ∈ cs
  | .block | .switchStatement | .namespaceDeclaration => Closed cs
  | .classDeclaration | .structDeclaration | .interfaceDeclaration | .enumDeclaration =>
      Bodied cs ∧ ∃ text, .token .ident text ∈ cs
  | _ => True

/-- Nodes about which nothing is said have any shape. -/
theorem shaped_of_free {k : Kind} (hk : isShaped k = false) (cs : List Tree) : Shaped k cs := by
  unfold Shaped
  split <;> trivial

/-- Of most statements nothing is asked. -/
theorem shaped_of_statement {k : Kind} (hk : k ∈ simpleStatements ++ leadingStatements)
    (cs : List Tree) : Shaped k cs := by
  revert k
  simp [simpleStatements, leadingStatements, Shaped]

/-- No opening brace stands in the row. -/
def Unopened (cs : List Tree) : Prop := ∀ t ∈ cs, t.isTokenOf .lBrace = false

/-- Two rows without opening braces make one. -/
theorem Unopened.append {xs ys : List Tree} (hxs : Unopened xs) (hys : Unopened ys) :
    Unopened (xs ++ ys) := by
  intro t ht
  rcases List.mem_append.1 ht with ht | ht
  · exact hxs t ht
  · exact hys t ht

/-- Without an opening brace there is nothing to close. -/
theorem Unopened.closed {cs : List Tree} (h : Unopened cs) : Closed cs := by
  rintro before brace after rfl hbrace
  rw [h brace (by simp)] at hbrace
  cases hbrace

/-- A closing brace closes what stands before it. -/
theorem Unopened.closed_append {ys : List Tree} (h : Unopened ys)
    (hclosing : ∃ t ∈ ys, t.isTokenOf .rBrace = true) (xs : List Tree) : Closed (xs ++ ys) := by
  intro before brace after hsplit hbrace
  obtain ⟨closing, hmem, hkind⟩ := hclosing
  rcases List.append_eq_append_iff.1 hsplit with ⟨more, -, hys⟩ | ⟨more, -, hafter⟩
  · rw [h brace (by rw [hys]; simp)] at hbrace
    cases hbrace
  · cases more with
    | nil =>
        rw [h brace (by rw [← List.nil_append ys, ← hafter]; simp)] at hbrace
        cases hbrace
    | cons t more =>
        obtain ⟨-, rfl⟩ := List.cons.inj hafter
        exact ⟨closing, List.mem_append_right _ hmem, hkind⟩

/-! ## What steps build right below their node -/

/-- A token that is taken stands behind the trivia before it. -/
theorem bump_eq {ts : List Token} (hend : atEnd ts = false) :
    ∃ text rest, bump ts = ⟨(flush ts).built ++ [.token (current ts) text], [], rest, false⟩ := by
  obtain ⟨t, rest, hts, -, htake⟩ := take_eq (flush_ready ts) (by rw [flush_atEnd, hend])
  have hready : Ready (t :: rest) := hts ▸ flush_ready ts
  have hkind : t.kind = current ts := by
    rw [← current_flush, hts, current_eq, significant_cons_of_ready hready]
    rfl
  refine ⟨t.text, rest, ?_⟩
  show all [flush, take] ts = _
  rw [all_pair]
  show (flush ts).andThen take = _
  rw [Step.andThen, htake]
  simp [leaf, hkind, flush]

/-- Away from the end, `bump` builds the trivia and then the token that is next. -/
theorem bump_built {ts : List Token} (hend : atEnd ts = false) :
    ∃ text, (bump ts).built = (flush ts).built ++ [.token (current ts) text] := by
  obtain ⟨text, rest, hbump⟩ := bump_eq hend
  exact ⟨text, by rw [hbump]⟩

/-- Trivia are no braces. -/
theorem flush_unopened (ts : List Token) : Unopened (flush ts).built := by
  intro t ht
  obtain ⟨token, htoken, rfl⟩ := List.mem_map.1 ht
  have htrivia : token.kind.isTrivia = true := by simpa using List.mem_takeWhile_imp htoken
  refine Bool.eq_false_iff.2 fun hbrace => ?_
  have hkind : Kind.lBrace = token.kind := by simpa [leaf, isTokenOf] using hbrace
  rw [← hkind] at htrivia
  cases htrivia

/-- A token that is no opening brace adds none. -/
theorem bump_unopened {ts : List Token} (h : ahead .lBrace ts = false) :
    Unopened (bump ts).built := by
  cases hend : atEnd ts with
  | true =>
      rw [bump_eq_flush hend]
      exact flush_unopened ts
  | false =>
      obtain ⟨text, hbuilt⟩ := bump_built hend
      rw [hbuilt]
      refine (flush_unopened ts).append fun t ht => ?_
      obtain rfl := List.mem_singleton.1 ht
      have hne : current ts ≠ .lBrace := by simpa [ahead] using h
      simpa [isTokenOf] using fun heq => hne heq.symm

/-- A parser that puts no opening brace right below the node that is open. -/
def Houses (p : Parser) : Prop := ∀ ts, (p ts).errors = [] → Unopened (p ts).built

/-- Parsers in order house together. -/
theorem Houses.seq {p q : Parser} (hp : Houses p) (hq : Houses q) :
    Houses (fun ts => (p ts).andThen q) := by
  intro ts herr
  obtain ⟨hperr, hqerr⟩ := Step.andThen_errors.1 herr
  exact (hp ts hperr).append (hq _ hqerr)

/-- A node hides the braces below it. -/
theorem node_houses (k : Kind) (ps : List Parser) : Houses (node k ps) := by
  have hnode : Houses (fun ts => (flush ts).andThen (under k (all ps))) :=
    Houses.seq (fun ts _ => flush_unopened ts) fun ts _ t ht => by
      obtain rfl := List.mem_singleton.1 ht
      rfl
  rwa [← all_pair] at hnode

/-- A loop houses if its turns do. -/
theorem repeatWhile_houses {look : Look} {p : Parser}
    (hp : ∀ ts, look ts = true → (p ts).errors = [] → Unopened (p ts).built) :
    Houses (repeatWhile look p) := fun ts herr =>
  turns_built silent_parts (Q := Unopened) (fun _ ht => by simp at ht) (fun _ _ hxs hys => hxs.append hys) hp _ ts
    herr

/-- There are no braces among attributes and modifiers. -/
theorem lead_houses (inner : Rule → Parser) : Houses (all [attributeLists inner, modifiers]) := by
  rw [all_pair]
  refine Houses.seq (repeatWhile_houses fun ts _ => node_houses _ _ ts) ?_
  refine repeatWhile_houses fun ts hmodifier _ => bump_unopened ?_
  refine Bool.eq_false_iff.2 fun hbrace => ?_
  have hcurrent : current ts = .lBrace := by simpa [ahead] using hbrace
  rw [hcurrent] at hmodifier
  cases hmodifier

/-- A declaration is one node, or only its attributes and modifiers. -/
theorem declared_houses (inner : Rule → Parser) (enclosing : Option String) :
    Houses (declared inner enclosing) := by
  intro ts herr
  unfold declared at herr ⊢
  dsimp only at herr ⊢
  split at herr
  · intro t ht
    obtain rfl := List.mem_singleton.1 ht
    rfl
  · split at herr
    · next hstuck =>
      rw [if_pos hstuck]
      exact lead_houses inner ts herr
    · next hstuck =>
      rw [if_neg hstuck]
      intro t ht
      obtain rfl := List.mem_singleton.1 ht
      rfl

/-- The same with the trivia before it. -/
theorem declaration_houses (inner : Rule → Parser) (enclosing : Option String) :
    Houses (declaration inner enclosing) := by
  unfold declaration
  rw [all_pair]
  exact Houses.seq (fun ts _ => flush_unopened ts) (declared_houses inner enclosing)

/-- Doing nothing adds no braces. -/
theorem done_houses : Houses done := fun _ _ t ht => by simp [done] at ht

/-- A member is one node, whatever the next token is. -/
theorem memberFor_houses (inner : Rule → Parser) (enclosing : Option String) (k : Kind) :
    Houses (memberFor inner enclosing k) := by
  generalize hp : memberFor inner enclosing k = p
  unfold memberFor at hp
  split at hp <;> subst hp
  · cases enclosing with
    | none => exact node_houses _ _
    | some name => exact declaration_houses inner (some name)
  · exact node_houses _ _
  · exact done_houses
  · exact done_houses
  · exact done_houses
  · exact declaration_houses inner enclosing

/-- A member is a node of its own. -/
theorem member_houses (n : Nat) (enclosing : Option String) :
    Houses (unfold n (.member enclosing)) := by
  cases n with
  | zero => exact fun ts _ t ht => by simp [unfold, giveUp] at ht
  | succ n => exact fun ts => memberFor_houses (unfold n) enclosing (current ts) ts

/-- Declarations stand in a row of nodes; what is skipped is complained about. -/
theorem declarations_houses {inner : Rule → Parser} (h : Houses (inner (.member none))) :
    Houses (declarations inner) := by
  refine repeatWhile_houses fun ts _ herr => ?_
  unfold orWhenStuck at herr ⊢
  dsimp only at herr ⊢
  split at herr
  · exact absurd (Step.andThen_errors.1 herr).2 (skip_errors _ _)
  · next hstuck =>
    rw [if_neg hstuck]
    exact h ts herr

/-! ## Nodes of their shape -/

/-- What holds of a node by its last steps holds of it whatever comes before them. -/
theorem Tops.cons {P : Kind → List Tree → Prop} {k : Kind} {p : Parser} {ps : List Parser} (h : Tops Silent P k (all ps)) :
    Tops Silent P k (all (p :: ps)) := by
  intro before ts herr
  have hrest := h (before ++ (p ts).built) (p ts).rest (Step.andThen_errors.1 herr).2
  rwa [List.append_assoc] at hrest

/-- A token that is asked for is taken, or there is a complaint. -/
theorem expect_eq_bump {k : Kind} {ts : List Token} (herr : (expect k ts).errors = []) :
    ahead k ts = true ∧ expect k ts = bump ts := by
  unfold expect either at herr ⊢
  split at herr
  · next hahead => exact ⟨hahead, if_pos hahead⟩
  · simp [complain] at herr

/-- A token that is asked for is put in place. -/
theorem expect_built {k : Kind} {ts : List Token} (hk : k ≠ .endOfFile)
    (herr : (expect k ts).errors = []) :
    ∃ text, (expect k ts).built = (flush ts).built ++ [.token k text] := by
  obtain ⟨hahead, hbump⟩ := expect_eq_bump herr
  obtain ⟨text, hbuilt⟩ := bump_built (not_atEnd_of_ahead hk hahead)
  have hcurrent : current ts = k := by simpa [ahead] using hahead
  exact ⟨text, by rw [hbump, hbuilt, hcurrent]⟩

/-- Without a complaint, the token that is asked for is there. -/
theorem expect_mem {k : Kind} {ts : List Token} (hk : k ≠ .endOfFile)
    (herr : (expect k ts).errors = []) : ∃ text, .token k text ∈ (expect k ts).built := by
  obtain ⟨text, hbuilt⟩ := expect_built hk herr
  exact ⟨text, by rw [hbuilt]; simp⟩

/-- A body that ends with its closing brace, or with a token behind it, is closed. -/
theorem closed_of_expect {p : Parser} (hp : Houses p) (before : List Tree) (ts : List Token)
    (herr : ((expect .rBrace ts).andThen p).errors = []) :
    Closed (before ++ ((expect .rBrace ts).andThen p).built) := by
  obtain ⟨hbraceErr, hperr⟩ := Step.andThen_errors.1 herr
  obtain ⟨text, hbuilt⟩ := expect_built (by decide) hbraceErr
  have hunopened : Unopened (expect .rBrace ts).built := by
    rw [hbuilt]
    refine (flush_unopened ts).append fun t ht => ?_
    obtain rfl := List.mem_singleton.1 ht
    rfl
  refine (hunopened.append (hp _ hperr)).closed_append ⟨.token .rBrace text, ?_, rfl⟩ before
  exact List.mem_append_left _ (by rw [hbuilt]; simp)

/-- A single parser is a sequence. -/
theorem all_single (p : Parser) : all [p] = p := funext fun ts => Step.andThen_done (p ts)

/-- A semicolon is no brace. -/
theorem eat_houses : Houses (eat .semicolon) := by
  intro ts _
  unfold eat given either
  split
  · next hsemicolon =>
    have hcurrent : current ts = .semicolon := by simpa [ahead] using hsemicolon
    exact bump_unopened (by simp [ahead, hcurrent])
  · exact fun t ht => by simp [done] at ht

/-- What ends with a closing brace is closed. -/
theorem body_tops {k : Kind} (hk : ∀ cs, Closed cs → Shaped k cs) :
    Tops Silent Shaped k (all [expect .rBrace]) := fun before ts herr =>
  hk _ (closed_of_expect done_houses before ts herr)

/-- A body may have a semicolon behind its closing brace. -/
theorem type_body_tops (k : Kind) :
    Tops Silent (fun _ => Bodied) k (all [expect .rBrace, eat .semicolon]) := by
  intro before ts herr
  obtain ⟨text, hmem⟩ := expect_mem (by decide) (Step.andThen_errors.1 herr).1
  refine ⟨closed_of_expect (all_single _ ▸ eat_houses) before ts herr, text, ?_⟩
  exact List.mem_append_right _ (List.mem_append_left _ hmem)

/-- A name and, further on, a body in braces. -/
theorem named_body_tops {k : Kind}
    (hk : ∀ cs, Bodied cs ∧ (∃ text, .token .ident text ∈ cs) → Shaped k cs) {ps : List Parser}
    (hps : Tops Silent (fun _ => Bodied) k (all ps)) :
    Tops Silent Shaped k (all (expect .ident :: ps)) := by
  intro before ts herr
  obtain ⟨text, hmem⟩ := expect_mem (by decide) (Step.andThen_errors.1 herr).1
  refine hk _ ⟨Tops.cons hps before ts herr, text, ?_⟩
  exact List.mem_append_right _ (List.mem_append_left _ hmem)

/-- What ends with a colon has one. -/
theorem colon_tops {k : Kind} (hk : ∀ cs, (∃ text, .token .colon text ∈ cs) → Shaped k cs) :
    Tops Silent Shaped k (all [expect .colon]) := by
  intro before ts herr
  rw [all_single] at herr ⊢
  obtain ⟨text, hmem⟩ := expect_mem (by decide) herr
  exact hk _ ⟨text, List.mem_append_right _ hmem⟩

/-- A type has a name and, further on, a body. -/
theorem typeDeclaration_tops (inner : Rule → Parser) {k : Kind}
    (hk : ∀ cs, Bodied cs ∧ (∃ text, .token .ident text ∈ cs) → Shaped k cs) :
    Tops Silent Shaped k (typeDeclaration inner) := by
  refine Tops.cons ?_
  rw [all_single]
  intro before ts
  have hbody : Tops Silent Shaped k (all (classBody inner (currentText ts))) :=
    named_body_tops hk
      (Tops.cons (Tops.cons (Tops.cons (Tops.cons (Tops.cons (type_body_tops k))))))
  exact hbody before ts

/-- Statements and labels have their shapes: each is told by its last steps. -/
theorem shapes_tops (inner : Rule → Parser) : Shapes (Tops Silent Shaped) inner where
  switchStatement := Tops.cons (Tops.cons (Tops.cons (Tops.cons (body_tops fun _ h => h))))
  caseLabel := Tops.cons (Tops.cons (colon_tops fun _ h => h))
  defaultLabel := Tops.cons (colon_tops fun _ h => h)
  simple k hk _ _ _ _ := shaped_of_statement (by revert k; decide) _
  leading k hk _ _ _ _ := shaped_of_statement (by revert k; decide) _
  ifStatement _ _ _ := trivial
  tryStatement _ _ _ := trivial

/-- Declarations of types have their shapes, and nothing is asked of methods and properties. -/
theorem declarationShapes_tops (inner : Rule → Parser) :
    DeclarationShapes (Tops Silent Shaped) inner where
  classDeclaration := typeDeclaration_tops inner fun _ h => h
  structDeclaration := typeDeclaration_tops inner fun _ h => h
  interfaceDeclaration := typeDeclaration_tops inner fun _ h => h
  enumDeclaration := Tops.cons (named_body_tops (k := .enumDeclaration) (fun _ h => h)
    (Tops.cons (Tops.cons (Tops.cons (type_body_tops _)))))
  methodDeclaration := fun _ _ _ => trivial
  propertyDeclaration := fun _ _ _ => trivial

variable {self : Rule → Parser}

/-- A node over steps that build nodes with a property. -/
theorem node_builds {P : Kind → List Tree → Prop} {k : Kind} {ps : List Parser} {ts : List Token}
    (hps : Builds Silent P (all ps)) (herr : (node k ps ts).errors = [])
    (hk : (all ps (flush ts).rest).errors = [] → P k (all ps (flush ts).rest).built) :
    EveryNodeAmong P (node k ps ts).built := by
  unfold node at herr ⊢
  rw [all_pair] at herr ⊢
  have hperr : (all ps (flush ts).rest).errors = [] := (Step.andThen_errors.1 herr).2
  exact everyNodeAmong_append.2 ⟨everyNodeAmong_leaves _ _, ⟨hk hperr, hps _ hperr⟩, trivial⟩

/-- What the grammar asks of the rules. -/
theorem shaped_rules (hs : ∀ r, Builds Silent Shaped (self r)) :
    Rules (Alone (Builds Silent Shaped)) (Tops Silent Shaped) self self :=
  ⟨hs, fun _ hk _ _ _ _ => shaped_of_free hk _⟩

/-- A declarator starts with its name. -/
theorem declarator_builds (hs : ∀ r, Builds Silent Shaped (self r)) :
    Builds Silent Shaped (declarator self) := by
  have C := builds_congruence (silent_fitting Shaped)
  have hps := bump_congr C
    (last_congr C (given_congr C (.ahead .eq) (equalsValue_congr C (shaped_rules hs))))
  intro ts herr
  unfold declarator either at herr ⊢
  split at herr
  · next hident =>
    rw [if_pos hident]
    refine node_builds hps herr fun _ => ?_
    have hcurrent : current (flush ts).rest = .ident := by
      simpa [ahead, current_flush] using hident
    obtain ⟨text, hbuilt⟩ := bump_built (not_atEnd_of_current (by decide) hcurrent)
    refine ⟨text, List.mem_append_left _ ?_⟩
    rw [hbuilt, hcurrent]
    simp
  · simp [complain] at herr

/-- A member of an enumeration has the name that is asked for behind its attributes. -/
theorem enumMember_builds (hs : ∀ r, Builds Silent Shaped (self r)) :
    Builds Silent Shaped (enumMember self) := by
  have C := builds_congruence (silent_fitting Shaped)
  have hps := cons_congr C (attributeLists_congr C (shaped_rules hs)) (cons_congr C
      (expect_congr C (k := .ident)) (last_congr C (given_congr C (.ahead .eq)
        (equalsValue_congr C (shaped_rules hs)))))
  intro ts herr
  refine node_builds hps herr fun hpsErr => ?_
  obtain ⟨-, htailErr⟩ := Step.andThen_errors.1 hpsErr
  obtain ⟨text, hmem⟩ := expect_mem (by decide) (Step.andThen_errors.1 htailErr).1
  exact ⟨text, List.mem_append_right _ (List.mem_append_left _ hmem)⟩

/-- A name is one node. -/
theorem name_houses : Houses name := by
  intro ts herr
  unfold name either at herr ⊢
  split at herr
  · next hident =>
    rw [if_pos hident]
    exact node_houses _ _ ts herr
  · simp [complain] at herr

/-- A namespace without braces has none among the declarations behind its semicolon either. -/
theorem namespace_closed (hmember : Houses (self (.member none))) {keyword : List Tree}
    (hkeyword : Unopened keyword) {ts : List Token}
    (herr : (all [name, either (ahead .semicolon) (all [bump, declarations self])
      (all [expect .lBrace, memberList self none, expect .rBrace])] ts).errors = []) :
    Closed (keyword ++ (all [name, either (ahead .semicolon) (all [bump, declarations self])
      (all [expect .lBrace, memberList self none, expect .rBrace])] ts).built) := by
  rw [all_pair] at herr ⊢
  obtain ⟨hnameErr, hrestErr⟩ := Step.andThen_errors.1 herr
  have hname := name_houses ts hnameErr
  show Closed (keyword ++ ((name ts).built ++ _))
  rw [← List.append_assoc]
  unfold either at hrestErr ⊢
  split at hrestErr
  · next hsemicolon =>
    rw [if_pos hsemicolon]
    have hcurrent : current (name ts).rest = .semicolon := by simpa [ahead] using hsemicolon
    rw [all_pair] at hrestErr ⊢
    refine ((hkeyword.append hname).append ?_).closed
    exact (bump_unopened (by simp [ahead, hcurrent])).append
      (declarations_houses hmember _ (Step.andThen_errors.1 hrestErr).2)
  · next hsemicolon =>
    rw [if_neg hsemicolon]
    exact Tops.cons (Tops.cons (body_tops (k := .block) fun _ h => h)) _ _ hrestErr

/-- A namespace is closed: with braces, the last one closes it; without, there is none right
below it. -/
theorem namespace_builds (hs : ∀ r, Builds Silent Shaped (self r))
    (hmember : Houses (self (.member none))) :
    Builds Silent Shaped (given (ahead .namespaceKw) (namespaceDeclaration self)) := by
  have C := builds_congruence (silent_fitting Shaped)
  have hmembers : Alone (Builds Silent Shaped) (memberList self none) (memberList self none) :=
    C.recover _ (open_blind .rBrace) trivial trivial (hs (.member none))
  have hdeclarations : Alone (Builds Silent Shaped) (declarations self) (declarations self) :=
    C.recover _ Blind.atEnd.not trivial trivial (hs (.member none))
  have hps := bump_congr C (cons_congr C (name_congr C (shaped_rules hs)) (last_congr C
    (either_congr C (.ahead .semicolon) (bump_congr C (last_congr C hdeclarations))
      (cons_congr C (expect_congr C (k := .lBrace)) (cons_congr C hmembers
        (last_congr C (expect_congr C (k := .rBrace))))))))
  intro ts herr
  unfold given either at herr ⊢
  split at herr
  · next hnamespace =>
    rw [if_pos hnamespace]
    refine node_builds hps herr fun hpsErr => ?_
    have hcurrent : current (flush ts).rest = .namespaceKw := by
      simpa [ahead, current_flush] using hnamespace
    have hkeyword : Unopened (bump (flush ts).rest).built :=
      bump_unopened (by simp [ahead, hcurrent])
    refine namespace_closed hmember hkeyword ?_
    exact (Step.andThen_errors.1 hpsErr).2
  · next hnamespace =>
    rw [if_neg hnamespace]
    trivial

/-- What members need: the rules, the shapes, and the nodes with names. -/
theorem builds_outer (hs : ∀ r, Builds Silent Shaped (self r)) (hmember : Houses (self (.member none))) :
    Outer (Alone (Builds Silent Shaped)) (Tops Silent Shaped) (fun _ _ => True) self self where
  toRules := shaped_rules hs
  binary := binaryPhrase_congr (builds_congruence (silent_fitting Shaped)) (shaped_rules hs) fun _ _ _ _ => trivial
  suffix := suffixPhrase_congr (builds_congruence (silent_fitting Shaped)) (shaped_rules hs)
    (fun _ _ _ _ => trivial) (stands_trivial self) (stands_trivial self)
  shapes := shapes_tops self
  block := block_congr (builds_congruence (silent_fitting Shaped)) (shaped_rules hs)
    (Tops.cons (Tops.cons (body_tops fun _ h => h))) (stands_trivial self) (stands_trivial self)
  type := typePhrase_congr (builds_congruence (silent_fitting Shaped)) (fun _ _ _ _ => trivial)
    (fun _ _ _ _ => trivial) (hs .type)
  declarator := declarator_builds hs
  enumMember := enumMember_builds hs
  namespaceDeclaration := namespace_builds hs hmember
  stands := stands_trivial self
  stands' := stands_trivial self

/-- What the whole grammar needs. -/
theorem builds_ground (hs : ∀ r, Builds Silent Shaped (self r)) (hmember : Houses (self (.member none))) :
    Ground (Alone (Builds Silent Shaped)) (Tops Silent Shaped) (fun _ _ => True) self self :=
  ⟨builds_outer hs hmember, declared_congr (builds_congruence (silent_fitting Shaped))
    (builds_outer hs hmember) (declarationShapes_tops self)⟩

/-- Every node of a file that is read without complaints has its shape. -/
theorem source_shaped : Builds Silent Shaped source :=
  (silent_fitting Shaped).ofSource (fun n hs => builds_ground hs (member_houses n none)) fun _ => trivial

end Parse

open Tree

/-- In a text without complaints, every node has its shape. -/
theorem parse_shaped {text : String} (herr : (parse text).2 = []) :
    (parse text).1.EveryNode Parse.Shaped := by
  have hsource := Parse.source_shaped (lex text).1
    (List.append_eq_nil_iff.1 (SyntaxError.sortByStart_eq_nil.1 herr)).2
  exact hsource.1

end CodeMend
