import CodeMend.Proofs.Parser.Shape

/-!
# How a statement ends

In a text without complaints, every statement ends with a semicolon or a closing brace
(`parse_terminated`).  A statement that leads to another one ends as that one does, so what has to be
known of the rule for statements is that it takes nothing, or builds what ends so (`Concludes`).
-/

namespace CodeMend.Parse

open Tree

/-- A statement ends with a semicolon or a closing brace. -/
def Terminated (k : Kind) (cs : List Tree) : Prop := k.isStatement = true → EndsClosed (tokensAll cs)

/-- Nothing is asked of what is no statement. -/
theorem terminated_of_other {k : Kind} (hk : k.isStatement = false) (cs : List Tree) :
    Terminated k cs := by
  intro hstatement
  rw [hk] at hstatement
  cases hstatement

/-! ## Steps that build what ends so -/

/-- Without complaints, what the parser builds ends with a semicolon or a closing brace. -/
def Ends (p : Parser) : Prop := ∀ ts, (p ts).errors = [] → EndsClosed (tokensAll (p ts).built)

/-- Without complaints, the parser builds nothing or what ends with a semicolon or a closing brace. -/
def Trails (p : Parser) : Prop :=
  ∀ ts, (p ts).errors = [] → (p ts).built = [] ∨ EndsClosed (tokensAll (p ts).built)

/-- Without complaints, the parser takes nothing or builds what ends with a semicolon or a closing
brace. -/
def Concludes (p : Parser) : Prop :=
  ∀ ts, (p ts).errors = [] → (p ts).rest = ts ∨ EndsClosed (tokensAll (p ts).built)

/-- What ends closed does so whatever comes before it. -/
theorem Ends.after {q : Parser} (h : Ends q) (p : Parser) : Ends fun ts => (p ts).andThen q := by
  intro ts herr
  have hends := h _ (Step.andThen_errors.1 herr).2
  show EndsClosed (tokensAll ((p ts).built ++ _))
  rw [tokensAll_append]
  exact hends.append_right _

/-- What ends closed does so before what may be empty. -/
theorem Ends.before {p q : Parser} (h : Ends p) (hq : Trails q) :
    Ends fun ts => (p ts).andThen q := by
  intro ts herr
  obtain ⟨hperr, hqerr⟩ := Step.andThen_errors.1 herr
  show EndsClosed (tokensAll ((p ts).built ++ (q (p ts).rest).built))
  rcases hq _ hqerr with hnil | hends
  · rw [hnil, List.append_nil]
    exact h ts hperr
  · rw [tokensAll_append]
    exact hends.append_right _

/-- Steps in front do not change how a sequence ends. -/
theorem Ends.lead {ps : List Parser} (h : Ends (all ps)) (lead : List Parser) :
    Ends (all (lead ++ ps)) := by
  induction lead with
  | nil => exact h
  | cons p lead ih => exact ih.after p

/-- A node over what ends closed is terminated. -/
theorem Ends.tops {p : Parser} (h : Ends p) (k : Kind) : Tops Silent Terminated k p := by
  intro before ts herr _
  rw [tokensAll_append]
  exact (h ts herr).append_right _

/-- An optional part that ends closed leaves the end as it is. -/
theorem Ends.trails {p : Parser} (h : Ends p) (look : Look) : Trails (given look p) := by
  intro ts herr
  unfold given either at herr ⊢
  split at herr
  · next hlook =>
    rw [if_pos hlook]
    exact .inr (h ts herr)
  · next hlook =>
    rw [if_neg hlook]
    exact .inl rfl

/-- Two rows that are empty or end closed make one. -/
theorem Trails.append {xs ys : List Tree} (hxs : xs = [] ∨ EndsClosed (tokensAll xs))
    (hys : ys = [] ∨ EndsClosed (tokensAll ys)) :
    xs ++ ys = [] ∨ EndsClosed (tokensAll (xs ++ ys)) := by
  rcases hys with rfl | hys
  · rwa [List.append_nil]
  · rw [tokensAll_append]
    exact .inr (hys.append_right _)

/-- Repeating what ends closed gives nothing or what ends closed. -/
theorem Ends.repeated {p : Parser} (h : Ends p) (look : Look) : Trails (repeatWhile look p) :=
  fun ts herr => turns_built silent_parts (Q := fun xs => xs = [] ∨ EndsClosed (tokensAll xs))
    (.inl rfl) (fun _ _ => Trails.append) (fun us _ hus => .inr (h us hus)) _ ts herr

/-- Two parsers in order that leave the end as it is. -/
theorem Trails.seq {p q : Parser} (hp : Trails p) (hq : Trails q) : Trails (all [p, q]) := by
  intro ts herr
  rw [all_pair] at herr ⊢
  obtain ⟨hperr, hqerr⟩ := Step.andThen_errors.1 herr
  exact Trails.append (hp ts hperr) (hq _ hqerr)

/-- A semicolon or a closing brace that is there is the end. -/
theorem expect_ends {k : Kind} (hk : k = .semicolon ∨ k = .rBrace) : Ends (all [expect k]) := by
  intro ts herr
  rw [all_single] at herr ⊢
  obtain ⟨text, hbuilt⟩ := expect_built (by rcases hk with rfl | rfl <;> decide) herr
  rw [hbuilt, tokensAll_append]
  exact EndsClosed.append_right ⟨[], k, text, rfl, hk⟩ _

/-- A node ends as what stands below it. -/
theorem node_ends {k : Kind} {ps : List Parser} (h : Ends (all ps)) : Ends (node k ps) := by
  unfold node
  rw [all_pair]
  refine Ends.after (fun ts herr => ?_) flush
  show EndsClosed (tokensAll (all ps ts).built ++ [])
  rw [List.append_nil]
  exact h ts herr

/-! ## Statements -/

variable {self : Rule → Parser}

/-- A block ends with its brace. -/
theorem blockSteps_ends (self : Rule → Parser) : Ends (all (blockSteps self)) :=
  (expect_ends (.inr rfl)).lead [_, _]

/-- A block that has to be there ends with its brace. -/
theorem requiredBlock_ends (self : Rule → Parser) : Ends (requiredBlock self) := by
  intro ts herr
  unfold requiredBlock either at herr ⊢
  split at herr
  · next hbrace =>
    rw [if_pos hbrace]
    exact node_ends (blockSteps_ends self) ts herr
  · simp [complain] at herr

/-- The statement inside another one was read to its end; one that took nothing is complained
about. -/
theorem embedded_ends (hs : Concludes (self .statement)) : Ends (embedded self) := by
  intro ts herr
  unfold embedded orWhenStuck at herr ⊢
  dsimp only at herr ⊢
  split at herr
  · cases (Step.andThen_errors.1 herr).2
  · next hstuck =>
    rw [if_neg hstuck]
    rcases hs ts herr with hrest | hends
    · exact absurd (by rw [stuck, hrest, beq_self_eq_true]) hstuck
    · exact hends

/-- A conditional statement ends as its last branch does. -/
theorem ifSteps_ends (hs : Concludes (self .statement)) : Ends (all (ifSteps self)) := by
  have helse : Ends (node .elseClause [bump, embedded self]) := by
    refine node_ends (Ends.lead ?_ [bump])
    rw [all_single]
    exact embedded_ends hs
  have hlast : Trails (all [given (ahead .elseKw) (node .elseClause [bump, embedded self])]) := by
    rw [all_single]
    exact helse.trails _
  exact (((embedded_ends hs).before hlast).after (condition self)).after bump

/-- A try ends with the block of its last clause. -/
theorem trySteps_ends (self : Rule → Parser) : Ends (all (trySteps self)) := by
  have hblock : Ends (all [requiredBlock self]) := by
    rw [all_single]
    exact requiredBlock_ends self
  have hcatch : Ends (catchClause self) := node_ends (hblock.lead [_, _])
  have hfinally : Ends (node .finallyClause [bump, requiredBlock self]) :=
    node_ends (hblock.lead [bump])
  exact ((requiredBlock_ends self).before
    ((hcatch.repeated (ahead .catchKw)).seq (hfinally.trails (ahead .finallyKw)))).after bump

/-- A statement ends as the one that it leads to. -/
theorem leading_ends (hs : Concludes (self .statement)) (lead : List Parser) :
    Ends (all (lead ++ [embedded self])) := by
  refine Ends.lead ?_ lead
  rw [all_single]
  exact embedded_ends hs

/-- All forms of statements are terminated, each by its last steps. -/
theorem shapes_terminated (hs : Concludes (self .statement)) : Shapes (Tops Silent Terminated) self where
  switchStatement := ((expect_ends (.inr rfl)).lead [_, _, _, _]).tops _
  caseLabel _ _ _ := terminated_of_other rfl _
  defaultLabel _ _ _ := terminated_of_other rfl _
  simple k _ lead := ((expect_ends (.inl rfl)).lead lead).tops k
  leading k _ lead := (leading_ends hs lead).tops k
  ifStatement := (ifSteps_ends hs).tops _
  tryStatement := (trySteps_ends self).tops _

/-- What ends closed concludes. -/
theorem Ends.concludes {p : Parser} (h : Ends p) : Concludes p := fun ts herr => .inr (h ts herr)

/-- A choice concludes if both of its branches do. -/
theorem either_concludes {look : Look} {p q : Parser} (hp : Concludes p) (hq : Concludes q) :
    Concludes (either look p q) := by
  intro ts herr
  unfold either at herr ⊢
  split at herr
  · next hlook =>
    rw [if_pos hlook]
    exact hp ts herr
  · next hlook =>
    rw [if_neg hlook]
    exact hq ts herr

/-- Doing nothing takes nothing. -/
theorem done_concludes : Concludes done := fun _ _ => .inl rfl

/-- A statement is taken up to its end, or nothing is. -/
theorem statementFor_concludes (hs : Concludes (self .statement)) (k : Kind) :
    Concludes (given (ahead k) (statementFor self k)) := by
  have hsemicolon (lead : List Parser) {k : Kind} : Concludes (node k (lead ++ [expect .semicolon])) :=
    (node_ends ((expect_ends (.inl rfl)).lead lead)).concludes
  have hleading (lead : List Parser) {k : Kind} : Concludes (node k (lead ++ [embedded self])) :=
    (node_ends (leading_ends hs lead)).concludes
  by_cases hempty : k = .semicolon
  · subst hempty
    show Concludes (given (ahead .semicolon) (node .emptyStatement [bump]))
    rw [emptyStatement_eq]
    exact either_concludes (hsemicolon []) done_concludes
  refine either_concludes ?_ done_concludes
  unfold statementFor
  split
  · exact (node_ends (blockSteps_ends self)).concludes
  · exact absurd rfl hempty
  · exact (node_ends (ifSteps_ends hs)).concludes
  · exact (node_ends ((expect_ends (.inr rfl)).lead [_, _, _, _])).concludes
  · exact hsemicolon [_, _]
  · exact hsemicolon [_, _]
  · exact hsemicolon [_]
  · exact hsemicolon [_]
  · exact hleading [_, _]
  · exact hsemicolon [_, _, _, _]
  · exact hleading [_, _, _, _, _, _, _, _]
  · exact hleading [_, _, _, _, _, _, _]
  · exact (node_ends (trySteps_ends self)).concludes
  · exact either_concludes (hleading [_, _, _, _]) (hsemicolon [_, _])
  · exact hsemicolon [_, _]
  · exact either_concludes (hsemicolon [_]) (either_concludes (hsemicolon [_]) done_concludes)

/-- A statement concludes at every depth, by induction on the depth. -/
theorem statement_concludes (n : Nat) : Concludes (unfold n .statement) := by
  induction n with
  | zero => exact fun _ _ => .inl rfl
  | succ n ih =>
      intro ts herr
      have hgiven : unfold (n + 1) .statement ts =
          given (ahead (current ts)) (statementFor (unfold n) (current ts)) ts := by
        simp [unfold, phrase, statementPhrase, given, either, ahead]
      rw [hgiven] at herr ⊢
      exact statementFor_concludes ih (current ts) ts herr

/-! ## Whole texts -/

/-- A statement is a block or one of the nodes of which shapes are asked. -/
theorem mem_of_isStatement {k : Kind} (hk : k.isStatement = true) : k ∈ .block :: shapedInside := by
  unfold Kind.isStatement at hk
  split at hk
  all_goals first | decide | cases hk

/-- What members need: the nodes with a shape that are no statements are terminated by being
none. -/
theorem terminated_outer (hs : ∀ r, Builds Silent Terminated (self r))
    (hstatement : Concludes (self .statement)) :
    Outer (Alone (Builds Silent Terminated)) (Tops Silent Terminated) (fun _ _ => True) self self := by
  have C := builds_congruence (silent_fitting Terminated)
  have hF {k : Kind} (hk : k.isStatement = false) (p : Parser) : Tops Silent Terminated k p :=
    fun _ _ _ => terminated_of_other hk _
  have hrules : Rules (Alone (Builds Silent Terminated)) (Tops Silent Terminated) self self := by
    refine ⟨hs, fun k hk => hF (Bool.eq_false_iff.2 fun hstatement => ?_)⟩
    rw [isShaped_of_isStatement hstatement] at hk
    cases hk
  refine C.outerOver (fun k hk => hF (Bool.eq_false_iff.2 fun hstatement => hk ?_)) hs
    (shapes_terminated hstatement)
    (block_congr C hrules ((blockSteps_ends self).tops _) (stands_trivial self) (stands_trivial self))
    (binaryPhrase_congr C hrules (hF rfl))
    (suffixPhrase_congr C hrules (hF rfl) (stands_trivial self) (stands_trivial self))
    (typePhrase_congr C (hF rfl) (hF rfl) (hs .type)) ?_
    (stands_trivial self) (stands_trivial self)
  · rcases List.mem_cons.1 (mem_of_isStatement hstatement) with rfl | hmem
    · decide
    · exact List.mem_append_right _ hmem
  · exact node_congr C (hF (k := .enumMemberDeclaration) rfl _) (cons_congr C
      (attributeLists_congr C hrules)
      (cons_congr C (expect_congr C)
        (last_congr C (given_congr C (.ahead .eq) (equalsValue_congr C hrules)))))

/-- What the whole grammar needs. -/
theorem terminated_ground (hs : ∀ r, Builds Silent Terminated (self r))
    (hstatement : Concludes (self .statement)) :
    Ground (Alone (Builds Silent Terminated)) (Tops Silent Terminated) (fun _ _ => True) self self :=
  ⟨terminated_outer hs hstatement, declared_congr (builds_congruence (silent_fitting Terminated))
    (terminated_outer hs hstatement) (by constructor <;> exact fun _ _ _ => terminated_of_other rfl _)⟩

/-- Every statement of a file that is read without complaints is terminated. -/
theorem source_terminated : Builds Silent Terminated source :=
  (silent_fitting Terminated).ofSource (fun n hs => terminated_ground hs (statement_concludes n))
    (terminated_of_other (k := .compilationUnit) rfl)

end CodeMend.Parse

namespace CodeMend

open Tree

/-- **In a text without complaints, every statement ends with a semicolon or a closing brace.** -/
theorem parse_terminated {text : String} (herr : (parse text).2 = []) :
    (parse text).1.EveryNode Parse.Terminated :=
  (Parse.source_terminated (lex text).1
    (List.append_eq_nil_iff.1 (SyntaxError.sortByStart_eq_nil.1 herr)).2).1

end CodeMend
