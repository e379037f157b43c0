import CodeMend.Proofs.Parser.Depth
import CodeMend.Proofs.Parser.Lossless
import CodeMend.Proofs.Parser.Shape

/-!
# What a member access is made of

In a text without complaints a member access has an expression before its dot and a name behind it
(`parse_accessed`).  The name is seen when the node is built.  The expression stands there already: a
row of suffixes starts with a primary expression, and whatever is wrapped around it is an expression
again (`wraps_accessed`).
-/

namespace CodeMend.Parse

open Tree

/-- There are no complaints and no bound was reached. -/
abbrev Flawless : Condition := fun errors cut => errors = [] ∧ cut = false

/-- The parts of a flawless step are flawless. -/
theorem flawless_parts : Condition.Parts Flawless := by
  intro errors errors' cut cut' h
  obtain ⟨herr, herr'⟩ := List.append_eq_nil_iff.1 h.1
  obtain ⟨hcut, hcut'⟩ := Bool.or_eq_false_iff.1 h.2
  exact ⟨⟨herr, hcut⟩, herr', hcut'⟩

/-- Is it a node that stands for a value? -/
def isOperand (t : Tree) : Bool := t.isNode && t.kind.isExpression

/-- A row of trivia and at least one operand. -/
structure Receiving (ts : List Tree) : Prop where
  row : ∀ t ∈ ts, t.isTrivia = true ∨ isOperand t = true
  operand : ∃ t ∈ ts, isOperand t = true

/-- A member access is made of a receiver, a dot and a name. -/
def Accessed (k : Kind) (cs : List Tree) : Prop :=
  k = .memberAccessExpression → ∃ front dot gap name text,
    cs = front ++ dot :: (gap ++ [.node .identifierName name]) ∧ Receiving front ∧
      dot.isToken = true ∧ (∀ t ∈ gap, t.isTrivia = true) ∧ .token .ident text ∈ name

/-- An error node is no member access. -/
theorem accessed_fitting : Fitting Flawless Accessed :=
  ⟨flawless_parts, fun h hne => absurd h.1 hne⟩

/-- Nothing is asked of other nodes. -/
theorem accessed_of_other {k : Kind} (hk : k ≠ .memberAccessExpression) (p : Parser) :
    Tops Flawless Accessed k p := fun _ _ _ heq => absurd heq hk

/-! ## Operands -/

/-- A parser that builds a row with an operand. -/
def Yields (p : Parser) : Prop := ∀ ts, Flawless (p ts).errors (p ts).cut → Receiving (p ts).built

/-- What is put in place is trivia. -/
theorem flush_trivia (ts : List Token) : ∀ t ∈ (flush ts).built, t.isTrivia = true := by
  intro t ht
  obtain ⟨token, htoken, rfl⟩ := List.mem_map.1 ht
  simpa [leaf, isTrivia] using List.mem_takeWhile_imp htoken

/-- A node for a value with trivia before it receives. -/
theorem receiving_node {k : Kind} (hk : k.isExpression = true) {gap : List Tree}
    (hgap : ∀ t ∈ gap, t.isTrivia = true) (cs : List Tree) : Receiving (gap ++ [.node k cs]) := by
  have hnode : isOperand (.node k cs) = true := hk
  refine ⟨fun t ht => ?_, .node k cs, by simp, hnode⟩
  rcases List.mem_append.1 ht with ht | ht
  · exact Or.inl (hgap t ht)
  · rw [List.mem_singleton.1 ht]
    exact Or.inr hnode

/-- A rule for a value yields. -/
theorem node_yields {k : Kind} (hk : k.isExpression = true) (ps : List Parser) :
    Yields (node k ps) := by
  intro ts _
  rw [node, all_pair]
  exact receiving_node hk (flush_trivia ts) _

/-- A complaint is not flawless. -/
theorem complain_yields (message : String) : Yields (complain message) := fun _ h =>
  absurd h.1 (by simp [complain])

/-- A choice yields if both of its branches do. -/
theorem either_yields {look : Look} {p q : Parser} (hp : Yields p) (hq : Yields q) :
    Yields (either look p q) := by
  intro ts h
  unfold either at h ⊢
  split at h
  · next hlook =>
    rw [if_pos hlook]
    exact hp ts h
  · next hlook =>
    rw [if_neg hlook]
    exact hq ts h

section Phrases

variable {self : Rule → Parser}

/-- A type counts as a value, since it may stand before a dot. -/
theorem typePhrase_yields : Yields (typePhrase self) :=
  either_yields (node_yields rfl _) (either_yields (node_yields rfl _) (complain_yields _))

/-- Every primary expression is a node for a value. -/
theorem primary_yields (htype : Yields (self .type)) {k : Kind} {p : Parser}
    (h : primary? self k = some p) : Yields p := by
  unfold primary? at h
  split at h
  · cases h
    exact node_yields rfl _
  split at h
  · cases h
    exact htype
  split at h <;> cases h
  all_goals exact node_yields rfl _

/-! ## Suffixes -/

/-- Every suffix makes a node for a value. -/
theorem suffix_isExpression {ts : List Token} {k : Kind} {ps : List Parser}
    (h : suffix? self ts = some (k, ps)) : k.isExpression = true := by
  unfold suffix? at h
  split at h <;> cases h <;> rfl

/-- A member access goes on with its dot and a name that is asked for. -/
theorem suffix_member {ts : List Token} {ps : List Parser}
    (h : suffix? self ts = some (.memberAccessExpression, ps)) :
    atEnd ts = false ∧
      ps = [bump, either (ahead .ident) identifierName (complain "Expected a member name")] := by
  unfold suffix? at h
  split at h <;> cases h
  · next hcurrent => exact ⟨not_atEnd_of_current (by decide) hcurrent, rfl⟩
  · next hcurrent => exact ⟨not_atEnd_of_current (by decide) hcurrent, rfl⟩

/-- The name that is asked for is put in place. -/
theorem memberName_built {ts : List Token}
    (herr : (either (ahead .ident) identifierName (complain "Expected a member name") ts).errors =
      []) :
    ∃ name text, (either (ahead .ident) identifierName (complain "Expected a member name") ts).built =
      (flush ts).built ++ [.node .identifierName name] ∧ .token .ident text ∈ name := by
  unfold either at herr ⊢
  split at herr
  · next hident =>
    rw [if_pos hident]
    have hcurrent : current (flush ts).rest = .ident := by
      simpa [ahead, current_flush] using hident
    obtain ⟨text, hbuilt⟩ := bump_built (not_atEnd_of_current (by decide) hcurrent)
    refine ⟨(bump (flush ts).rest).built, text, ?_, ?_⟩
    · rw [identifierName, node, all_pair, all_single]
      rfl
    · rw [hbuilt, hcurrent]
      simp
  · simp [complain] at herr

/-- **One access.**  Around a row with an operand, the node has its receiver and its name. -/
theorem accessed_of_receiving {built : List Tree} (hbuilt : Receiving built) {ts : List Token}
    {ps : List Parser} (h : suffix? self ts = some (.memberAccessExpression, ps))
    (herr : (all ps ts).errors = []) :
    Accessed .memberAccessExpression (built ++ (all ps ts).built) := by
  obtain ⟨hend, rfl⟩ := suffix_member h
  rw [all_pair] at herr ⊢
  obtain ⟨hdotErr, hnameErr⟩ := Step.andThen_errors.1 herr
  obtain ⟨dot, hdot⟩ := bump_built hend
  obtain ⟨name, text, hname, hident⟩ := memberName_built hnameErr
  refine fun _ => ⟨built ++ (flush ts).built, .token (current ts) dot,
    (flush (bump ts).rest).built, name, text, ?_, ⟨fun t ht => ?_, ?_⟩, rfl, flush_trivia _, hident⟩
  · show built ++ ((bump ts).built ++ _) = _
    rw [hname, hdot]
    simp only [List.append_assoc, List.cons_append, List.nil_append]
  · rcases List.mem_append.1 ht with ht | ht
    · exact hbuilt.row t ht
    · exact Or.inl (flush_trivia ts t ht)
  · obtain ⟨t, ht, hoperand⟩ := hbuilt.operand
    exact ⟨t, List.mem_append_left _ ht, hoperand⟩

/-- **All suffixes of an operand**, by induction on the turns that are left. -/
theorem wraps_accessed
    (hpick : ∀ ts k ps, suffix? self ts = some (k, ps) → Builds Flawless Accessed (all ps)) (n : Nat)
    {built : List Tree} (hreceiving : Receiving built) (hbuilt : EveryNodeAmong Accessed built)
    (ts : List Token)
    (h : Flawless (wraps (suffix? self) n built ts).errors (wraps (suffix? self) n built ts).cut) :
    EveryNodeAmong Accessed (wraps (suffix? self) n built ts).built := by
  induction n generalizing built ts with
  | zero => exact hbuilt
  | succ n ih =>
      cases hp : suffix? self ts with
      | none =>
          simp only [wraps, hp]
          exact hbuilt
      | some found =>
          obtain ⟨k, ps⟩ := found
          simp only [wraps, hp] at h ⊢
          obtain ⟨hps, hrest⟩ := flawless_parts h
          have hnode : Accessed k (built ++ (all ps ts).built) := by
            intro hk
            subst hk
            exact accessed_of_receiving hreceiving hp hps.1 rfl
          exact ih (@receiving_node _ (suffix_isExpression hp) []
            (fun _ h => absurd h List.not_mem_nil) _)
            (everyNode_enclose hnode hbuilt (hpick ts k ps hp ts hps)) _ hrest

/-- What the grammar asks of the rules. -/
theorem accessed_rules (hs : ∀ r, Builds Flawless Accessed (self r)) :
    Rules (Alone (Builds Flawless Accessed)) (Tops Flawless Accessed) self self :=
  ⟨hs, fun _ hk => accessed_of_other fun heq => by rw [heq] at hk; cases hk⟩

/-- What a suffix is made of is built of nodes with the property. -/
theorem suffix_builds (hs : ∀ r, Builds Flawless Accessed (self r)) {ts : List Token} {k : Kind}
    {ps : List Parser} (h : suffix? self ts = some (k, ps)) : Builds Flawless Accessed (all ps) := by
  have C := builds_congruence accessed_fitting
  have hmember := bump_congr C (last_congr C (either_congr C (.ahead .ident)
    (identifierName_congr C (accessed_rules hs)) (C.complain "Expected a member name")))
  unfold suffix? at h
  split at h <;> cases h
  · exact hmember
  · exact hmember
  · exact last_congr C (argumentList_congr C (accessed_rules hs))
  · exact last_congr C (bracketedArgumentList_congr C (accessed_rules hs))
  · exact last_congr C C.bump
  · exact last_congr C C.bump

/-- An operand with its suffixes, among them the member accesses. -/
theorem suffixPhrase_accessed (hs : ∀ r, Builds Flawless Accessed (self r))
    (htype : Yields (self .type)) : Builds Flawless Accessed (suffixPhrase self) := by
  have C := builds_congruence accessed_fitting
  unfold suffixPhrase
  rw [all_pair]
  refine Builds.seq flawless_parts flush_builds fun ts h => ?_
  rcases primary_congr C (accessed_rules hs) (stands_trivial self) (stands_trivial self) (current ts) with
    ⟨hnone, -⟩ | ⟨p, _, hp, -, hbuilds⟩
  · exact absurd h.1 (by simp [hnone, complain])
  · simp only [hp] at h ⊢
    obtain ⟨hoperand, hrest⟩ := flawless_parts h
    exact wraps_accessed (fun _ _ _ => suffix_builds hs) _ (primary_yields htype hp ts hoperand)
      (hbuilds ts hoperand) _ hrest

end Phrases

/-! ## Whole texts -/

/-- What the whole grammar asks. -/
theorem accessed_ground {self : Rule → Parser} (hs : ∀ r, Builds Flawless Accessed (self r))
    (htype : Yields (self .type)) :
    Ground (Alone (Builds Flawless Accessed)) (Tops Flawless Accessed) (fun _ _ => True) self self :=
  have C := builds_congruence accessed_fitting
  C.groundBut (fun _ hk => accessed_of_other fun heq => hk (by simp [heq])) hs
    (binaryPhrase_congr C (accessed_rules hs) (accessed_of_other nofun)) (suffixPhrase_accessed hs htype)
    (stands_trivial self) (stands_trivial self)

/-- Types yield at every depth. -/
theorem unfold_yields (n : Nat) : Yields (unfold n .type) := by
  cases n with
  | zero => exact fun _ h => nomatch h.2
  | succ n => exact typePhrase_yields

/-- Every member access of a file that is read without complaints has a receiver and a name. -/
theorem source_accessed : Builds Flawless Accessed source :=
  accessed_fitting.ofSource (fun n hs => accessed_ground hs (unfold_yields n)) fun _ => nofun

end CodeMend.Parse

namespace CodeMend

open Tree

/-- **In a text without complaints, a member access has a receiver and a name.** -/
theorem parse_accessed {text : String} (herr : (parse text).2 = []) :
    (parse text).1.EveryNode Parse.Accessed :=
  (Parse.source_accessed (lex text).1
    ⟨(List.append_eq_nil_iff.1 (SyntaxError.sortByStart_eq_nil.1 herr)).2, source_uncut text⟩).1

end CodeMend
