import CodeMend.Proofs.Parser.Shape
import CodeMend.Proofs.Parser.Standing

/-!
# What a block is made of

In a text without complaints a block starts with one token and ends with a closing brace, and no
opening brace stands between them (`parse_bracketed`): what its statements put right below it are
nodes and trivia.  So if a block has an opening brace at all, it starts with it.

Which token a block starts with is not asked: that is seen by those who call for a block.
-/

namespace CodeMend.Parse

open Tree

/-- A block is a token, a row without opening braces and a closing brace. -/
def Bracketed (k : Kind) (cs : List Tree) : Prop :=
  k = .block → ∃ first body closing, cs = first :: (body ++ [.token .rBrace closing]) ∧ Unopened body

theorem bracketed_of_other {k : Kind} (hk : k ≠ .block) (cs : List Tree) : Bracketed k cs :=
  fun heq => absurd heq hk

/-! ## Statements are nodes of their own -/

/-- A choice houses if both of its branches do. -/
theorem either_houses {look : Look} {p q : Parser} (hp : Houses p) (hq : Houses q) :
    Houses (either look p q) := by
  intro ts herr
  unfold either at herr ⊢
  split at herr
  · next hlook =>
    rw [if_pos hlook]
    exact hp ts herr
  · next hlook =>
    rw [if_neg hlook]
    exact hq ts herr

theorem statementFor_houses (inner : Rule → Parser) (k : Kind) : Houses (statementFor inner k) := by
  generalize hp : statementFor inner k = p
  unfold statementFor at hp
  split at hp <;> subst hp
  case h_14 => exact either_houses (node_houses _ _) (node_houses _ _)
  case h_16 => exact either_houses (node_houses _ _) (either_houses (node_houses _ _) done_houses)
  all_goals exact node_houses _ _

theorem statement_houses (n : Nat) : Houses (unfold n .statement) := by
  cases n with
  | zero => exact fun ts _ t ht => by simp [unfold, giveUp] at ht
  | succ n => exact fun ts => statementFor_houses (unfold n) (current ts) ts

/-! ## Blocks -/

theorem flush_built_of_ready {ts : List Token} (h : Ready ts) : (flush ts).built = [] := by
  cases ts with
  | nil => rfl
  | cons t ts => simp [flush, h t rfl]

variable {self : Rule → Parser}

/-- The statements of a block. -/
theorem statements_houses (hs : Houses (self .statement)) :
    Houses (repeatWhile (fun ts => !ahead .rBrace ts && !atEnd ts)
      (orWhenStuck (self .statement) (skip "Expected a statement"))) := by
  refine repeatWhile_houses fun ts _ herr => ?_
  unfold orWhenStuck at herr ⊢
  dsimp only at herr ⊢
  split at herr
  · exact absurd (Step.andThen_errors.1 herr).2 (skip_errors _ _)
  · next hstuck =>
    rw [if_neg hstuck]
    exact hs ts herr

/-- At the end of the text there is no block. -/
theorem block_not_atEnd {ts : List Token} (herr : (all (blockSteps self) ts).errors = []) :
    atEnd ts = false := by
  refine Bool.eq_false_iff.2 fun hend => ?_
  obtain ⟨-, hrest⟩ := Step.andThen_errors.1 herr
  obtain ⟨-, hclose⟩ := Step.andThen_errors.1 hrest
  rw [all_single, bump_eq_flush hend] at hclose
  have hend : atEnd (flush ts).rest = true := by rw [flush_atEnd, hend]
  rw [repeatWhile, loop, turns_of_not _ (by rw [hend, Bool.not_true, Bool.and_false])] at hclose
  have hbrace := (expect_eq_bump hclose).1
  rw [ahead, show current (done (flush ts).rest).rest = .endOfFile from beq_iff_eq.1 hend] at hbrace
  cases hbrace

/-- A block starts with its opening brace, ends with its closing one, and has no other brace
right below it, since statements are nodes of their own. -/
theorem blockSteps_bracketed (hs : Houses (self .statement)) {ts : List Token} (hready : Ready ts)
    (herr : (all (blockSteps self) ts).errors = []) :
    Bracketed .block (all (blockSteps self) ts).built := by
  intro _
  obtain ⟨first, rest, hfirst⟩ := bump_eq (block_not_atEnd herr)
  obtain ⟨-, htail⟩ := Step.andThen_errors.1 herr
  obtain ⟨hbody, hclose⟩ := Step.andThen_errors.1 htail
  rw [all_single] at hclose
  obtain ⟨closing, hclosing⟩ := expect_built (by decide) hclose
  let body := repeatWhile (fun ts => !ahead .rBrace ts && !atEnd ts)
    (orWhenStuck (self .statement) (skip "Expected a statement")) (bump ts).rest
  refine ⟨.token (current ts) first, body.built ++ (flush body.rest).built, closing, ?_,
    (statements_houses hs _ hbody).append (flush_unopened _)⟩
  have hopen : (bump ts).built = [.token (current ts) first] := by
    rw [hfirst, flush_built_of_ready hready]
    rfl
  have hend : (expect .rBrace body.rest).built =
      (flush body.rest).built ++ [.token .rBrace closing] := hclosing
  show (bump ts).built ++ (body.built ++ (all [expect .rBrace] body.rest).built) = _
  rw [all_single, hopen, hend, List.append_assoc, List.singleton_append]

/-- A block is bracketed, if what stands below it is. -/
theorem block_builds (hs : ∀ r, Builds Silent Bracketed (self r)) (hstatement : Houses (self .statement)) :
    Builds Silent Bracketed (block self) := by
  have C := builds_congruence (silent_fitting Bracketed)
  have hps : Alone (Builds Silent Bracketed) (all (blockSteps self)) (all (blockSteps self)) :=
    bump_congr C (cons_congr C (C.recover _ (open_blind .rBrace) trivial trivial (hs .statement))
      (last_congr C (expect_congr C)))
  intro ts herr
  exact node_builds hps herr (blockSteps_bracketed hstatement (flush_ready ts))

/-! ## Whole texts -/

/-- What the members of types ask; no other node than a block has to be bracketed. -/
theorem bracketed_outer (hs : ∀ r, Builds Silent Bracketed (self r))
    (hstatement : Houses (self .statement)) :
    Outer (Alone (Builds Silent Bracketed)) (Tops Silent Bracketed) (fun _ _ => True) self self := by
  have C := builds_congruence (silent_fitting Bracketed)
  have hF {k : Kind} (hk : k ≠ .block) (p : Parser) : Tops Silent Bracketed k p :=
    fun _ _ _ => bracketed_of_other hk _
  have hrules : Rules (Alone (Builds Silent Bracketed)) (Tops Silent Bracketed) self self :=
    ⟨hs, fun k hk => hF fun h => by rw [h] at hk; cases hk⟩
  refine C.outerOver (fun k hk => hF fun h => hk (by simp [h])) hs
    (.of_free (fun k hk => hF (by revert k; decide)) self) (block_builds hs hstatement)
    (binaryPhrase_congr C hrules (hF nofun))
    (suffixPhrase_congr C hrules (hF nofun) (stands_trivial self) (stands_trivial self))
    (typePhrase_congr C (hF nofun) (hF nofun) (hs .type)) ?_
    (stands_trivial self) (stands_trivial self)
  exact node_congr C (hF (k := .enumMemberDeclaration) nofun _) (cons_congr C
    (attributeLists_congr C hrules)
    (cons_congr C (expect_congr C)
      (last_congr C (given_congr C (.ahead .eq) (equalsValue_congr C hrules)))))

theorem bracketed_ground (hs : ∀ r, Builds Silent Bracketed (self r))
    (hstatement : Houses (self .statement)) :
    Ground (Alone (Builds Silent Bracketed)) (Tops Silent Bracketed) (fun _ _ => True) self self :=
  ⟨bracketed_outer hs hstatement, declared_congr (builds_congruence (silent_fitting Bracketed))
    (bracketed_outer hs hstatement) (by
      constructor <;> exact fun _ _ _ => bracketed_of_other (by decide) _)⟩

theorem source_bracketed : Builds Silent Bracketed source :=
  (silent_fitting Bracketed).ofSource (fun n hs => bracketed_ground hs (statement_houses n))
    (bracketed_of_other (k := .compilationUnit) nofun)

end CodeMend.Parse

namespace CodeMend

open Tree

/-- **In a text without complaints, a block starts with its only opening brace, if it has one, and ends
with a closing brace.** -/
theorem parse_bracketed {text : String} (herr : (parse text).2 = []) :
    (parse text).1.EveryNode Parse.Bracketed :=
  (Parse.source_bracketed (lex text).1
    (List.append_eq_nil_iff.1 (SyntaxError.sortByStart_eq_nil.1 herr)).2).1

end CodeMend
