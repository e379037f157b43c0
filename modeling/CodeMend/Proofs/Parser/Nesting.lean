import CodeMend.Proofs.Parser.Shape

/-!
# What stands inside what

A statement, an expression or a type never refers to a member, so no namespace, type or member of an
enumeration is declared inside one (`unfold_inner`).  A type refers to nothing but types
(`unfold_typed`).

`Contained` puts down what follows for the nodes of a text without complaints: below a type stand types
only, below a member of an enumeration no further declaration, and the name of the member stands
before its value (`parse_contained`).
-/

namespace CodeMend

namespace Parse

open Tree

/-- Declarations that stand outside of statements and expressions. -/
def isOuter : Kind → Bool
  | .namespaceDeclaration | .classDeclaration | .structDeclaration | .interfaceDeclaration
  | .enumDeclaration | .enumMemberDeclaration => true
  | _ => false

/-- The nodes of which types are made. -/
def isTypePart (k : Kind) : Bool := k == .type || k == .typeArgumentList

/-- No declaration stands among the trees or below them. -/
def Undeclared (ts : List Tree) : Prop := EveryNodeAmong (fun k _ => isOuter k = false) ts

/-- What stands below a node, as far as `Contained` says so: below a type there are only types; below a
member of an enumeration nothing is declared, and its name comes before its value. -/
def Contained (k : Kind) (cs : List Tree) : Prop :=
  match k with
  | .type => EveryNodeAmong (fun l _ => isTypePart l = true) cs
  | .enumMemberDeclaration => Undeclared cs ∧
      ∀ before clause after, cs = before ++ clause :: after →
        clause.isNodeOf .equalsValueClause = true → ∃ name, .token .ident name ∈ before
  | _ => True

/-! ## Phrases without members -/

/-- The rules, of which those for members do nothing. -/
def trimmed (inner : Rule → Parser) : Rule → Parser
  | .member _ => done
  | r => inner r

/-- Statements, expressions and types do not refer to members. -/
theorem phrase_trimmed (inner : Rule → Parser) {r : Rule} (hr : r.isMember = false) :
    phrase (trimmed inner) r = phrase inner r := by
  cases r with
  | member enclosing => cases hr
  | statement => rfl
  | expression => rfl
  | binary level => rfl
  | unary => rfl
  | type => rfl

theorem isOuter_of_free {k : Kind} (hk : isShaped k = false) : isOuter k = false := by
  by_contra houter
  rw [Bool.not_eq_false] at houter
  unfold isOuter at houter
  split at houter <;> first | cases hk | cases houter

theorem not_isOuter_of_mem : ∀ k ∈ shapedInside, isOuter k = false := by decide

section Inner

variable {self : Rule → Parser}

/-- Building nothing but what stands inside statements and expressions. -/
abbrev Inward : Parser → Prop := Builds Silent (fun k _ => isOuter k = false)

theorem inward_congruence :
    Congruence (Alone Inward) (Tops Silent (fun k _ => isOuter k = false)) (fun _ _ => True) :=
  builds_congruence (silent_fitting _)

/-- What the grammar asks of the rules that lead to no member. -/
theorem inward_rules (hs : ∀ r, r.isMember = false → Inward (self r)) :
    Rules (Alone Inward) (Tops Silent (fun k _ => isOuter k = false)) (trimmed self)
      (trimmed self) where
  rule := by
    intro r
    cases hr : r.isMember with
    | false =>
        cases r with
        | member enclosing => cases hr
        | _ => exact hs _ hr
    | true =>
        cases r with
        | member enclosing => exact inward_congruence.done
        | _ => cases hr
  free := fun _ hk _ _ _ _ => isOuter_of_free hk

/-- What statements, expressions and types ask. -/
theorem inward_inner (hs : ∀ r, r.isMember = false → Inward (self r)) :
    Inner (Alone Inward) (Tops Silent (fun k _ => isOuter k = false)) (fun _ _ => True)
      (trimmed self) (trimmed self) where
  toRules := inward_rules hs
  shapes := .of_free (fun _ hk _ _ _ _ => not_isOuter_of_mem _ hk) _
  block := block_congr inward_congruence (inward_rules hs) (fun _ _ _ => rfl) (stands_trivial _)
    (stands_trivial _)
  binary := binaryPhrase_congr inward_congruence (inward_rules hs) fun _ _ _ _ => rfl
  suffix := suffixPhrase_congr inward_congruence (inward_rules hs) (fun _ _ _ _ => rfl)
    (stands_trivial _) (stands_trivial _)
  type := typePhrase_congr inward_congruence (fun _ _ _ _ => rfl) (fun _ _ _ _ => rfl)
    ((inward_rules hs).rule .type)
  declarator := either_congr inward_congruence (.ahead .ident)
    (node_congr inward_congruence (fun _ _ _ => rfl) (bump_congr inward_congruence
      (last_congr inward_congruence (given_congr inward_congruence (.ahead .eq)
        (equalsValue_congr inward_congruence (inward_rules hs))))))
    (inward_congruence.complain _)
  stands := stands_trivial _
  stands' := stands_trivial _

end Inner

/-- **Nothing is declared inside a statement, an expression or a type.** -/
theorem unfold_inner (n : Nat) {r : Rule} (hr : r.isMember = false) : Inward (unfold n r) := by
  induction n generalizing r with
  | zero => exact fun _ _ => trivial
  | succ n ih =>
      have hphrase : Inward (phrase (trimmed (unfold n)) r) :=
        phrase_congr_inner inward_congruence (inward_inner fun r hr => ih hr) hr
      rwa [phrase_trimmed _ hr] at hphrase

/-- **A type is made of types.** -/
theorem unfold_typed (n : Nat) : Builds Silent (fun k _ => isTypePart k = true) (unfold n .type) := by
  have C := builds_congruence (silent_fitting fun k _ => isTypePart k = true)
  induction n with
  | zero => exact fun _ _ => trivial
  | succ n ih =>
      have htype : Alone (Builds Silent fun k _ => isTypePart k = true) (unfold n .type)
          (unfold n .type) := ih
      exact typePhrase_congr C (fun _ _ _ _ => rfl) (fun _ _ _ _ => rfl) htype

/-! ## Contained nodes -/

theorem contained_of_other {k : Kind} (hk : k ≠ .type) (hmember : k ≠ .enumMemberDeclaration)
    (cs : List Tree) : Contained k cs := by
  unfold Contained
  split
  · exact absurd rfl hk
  · exact absurd rfl hmember
  · trivial

/-- What is made of types has only nested nodes. -/
theorem contained_of_typed :
    (∀ t : Tree, t.EveryNode (fun k _ => isTypePart k = true) → t.EveryNode Contained) ∧
    ∀ ts, EveryNodeAmong (fun k _ => isTypePart k = true) ts → EveryNodeAmong Contained ts := by
  apply induct
  · exact fun _ _ _ => trivial
  · intro k cs ih h
    refine ⟨?_, ih h.2⟩
    by_cases hk : k = .type
    · subst hk
      exact h.2
    · refine contained_of_other hk ?_ cs
      rintro rfl
      exact absurd (show isTypePart .enumMemberDeclaration = true from h.1) (by decide)
  · exact fun _ => trivial
  · exact fun t ts ht hts h => ⟨ht h.1, hts h.2⟩

/-- A row without the clause of a value. -/
def Unvalued (ts : List Tree) : Prop := ∀ t ∈ ts, t.isNodeOf .equalsValueClause = false

theorem Unvalued.append {ts us : List Tree} (hts : Unvalued ts) (hus : Unvalued us) :
    Unvalued (ts ++ us) := by
  intro t ht
  rcases List.mem_append.1 ht with ht | ht
  · exact hts t ht
  · exact hus t ht

theorem leaves_unvalued (ts : List Token) : Unvalued (ts.map leaf) := by
  intro t ht
  obtain ⟨token, -, rfl⟩ := List.mem_map.1 ht
  rfl

/-- Attributes are nodes of another kind. -/
theorem attributeLists_unvalued (inner : Rule → Parser) {ts : List Token}
    (herr : (attributeLists inner ts).errors = []) : Unvalued (attributeLists inner ts).built := by
  refine turns_built silent_parts (Q := Unvalued) (fun t ht => by simp at ht)
    (fun _ _ => Unvalued.append) (fun us _ _ => ?_) _ ts herr
  show Unvalued (node .attributeList _ us).built
  unfold node
  rw [all_pair]
  refine (leaves_unvalued _).append fun t ht => ?_
  obtain rfl := List.mem_singleton.1 ht
  rfl

/-- The children of a member of an enumeration are nested as they should. -/
theorem enumMember_contained {inner : Rule → Parser} (hs : ∀ r, r.isMember = false → Inward (inner r))
    {ts : List Token}
    (herr : (all [attributeLists inner, expect .ident, given (ahead .eq) (equalsValue inner)]
      ts).errors = []) :
    Contained .enumMemberDeclaration (all [attributeLists inner, expect .ident,
      given (ahead .eq) (equalsValue inner)] ts).built := by
  have C := inward_congruence
  have hundeclared : Inward (all [attributeLists (trimmed inner), expect .ident,
      given (ahead .eq) (equalsValue (trimmed inner))]) :=
    cons_congr C (attributeLists_congr C (inward_rules hs)) (cons_congr C (expect_congr C)
      (last_congr C (given_congr C (.ahead .eq) (equalsValue_congr C (inward_rules hs)))))
  refine ⟨hundeclared ts herr, fun before clause after hsplit hclause => ?_⟩
  obtain ⟨hlistsErr, hrestErr⟩ := Step.andThen_errors.1 herr
  obtain ⟨name, hname⟩ := expect_built (by decide) (Step.andThen_errors.1 hrestErr).1
  -- the clause stands behind the attributes and the name
  have hlead : Unvalued ((attributeLists inner ts).built ++
      (expect .ident (attributeLists inner ts).rest).built) := by
    refine (attributeLists_unvalued inner hlistsErr).append ?_
    rw [hname]
    exact (leaves_unvalued _).append fun t ht => by
      obtain rfl := List.mem_singleton.1 ht
      rfl
  have hbuilt : ∃ more, (attributeLists inner ts).built ++
      (expect .ident (attributeLists inner ts).rest).built ++ more = before ++ clause :: after :=
    ⟨_, by rw [← hsplit, List.append_assoc]; rfl⟩
  obtain ⟨more, hbuilt⟩ := hbuilt
  refine ⟨name, ?_⟩
  rcases List.append_eq_append_iff.1 hbuilt with ⟨between, rfl, -⟩ | ⟨between, hlists, hmore⟩
  · refine List.mem_append_left _ (List.mem_append_right _ ?_)
    rw [hname]
    simp
  · cases between with
    | nil =>
        rw [← List.append_nil before, ← hlists, hname]
        simp
    | cons t between =>
        obtain ⟨rfl, -⟩ := List.cons.inj hmore
        rw [hlead clause (by rw [hlists]; simp)] at hclause
        cases hclause

/-- What the whole grammar asks: declarations of constants contain none, since what stands below
them leads to no member. -/
theorem contained_ground {n : Nat} (hs : ∀ r, Builds Silent Contained (unfold n r)) :
    Ground (Alone (Builds Silent Contained)) (Tops Silent Contained) (fun _ _ => True) (unfold n)
      (unfold n) := by
  have C := builds_congruence (silent_fitting Contained)
  have hF : ∀ k, k ∉ [.binaryExpression, .memberAccessExpression, .type, .typeArgumentList,
      .enumMemberDeclaration] → ∀ p, Tops Silent Contained k p := fun k hk p before ts _ =>
    contained_of_other (fun h => hk (by simp [h])) (fun h => hk (by simp [h])) _
  have hrules : Rules (Alone (Builds Silent Contained)) (Tops Silent Contained) (unfold n) (unfold n) :=
    ⟨hs, fun k hk p before ts _ => contained_of_other (fun h => by rw [h] at hk; cases hk)
      (fun h => by rw [h] at hk; cases hk) _⟩
  refine C.groundOver hF hs (binaryPhrase_congr C hrules fun _ _ _ _ => trivial)
    (suffixPhrase_congr C hrules (fun _ _ _ _ => trivial) (stands_trivial _) (stands_trivial _)) ?_ ?_
    (stands_trivial _) (stands_trivial _)
  · exact fun ts herr => contained_of_typed.2 _ (unfold_typed (n + 1) ts herr)
  · have hps := cons_congr C (attributeLists_congr C hrules) (cons_congr C
      (expect_congr C (k := .ident)) (last_congr C (given_congr C (.ahead .eq)
        (equalsValue_congr C hrules))))
    intro ts herr
    unfold enumMember node at herr ⊢
    rw [all_pair] at herr ⊢
    have hpsErr := (Step.andThen_errors.1 herr).2
    exact everyNodeAmong_append.2 ⟨everyNodeAmong_leaves _ _,
      ⟨enumMember_contained (fun r hr => unfold_inner n hr) hpsErr, hps _ hpsErr⟩, trivial⟩

theorem source_contained : Builds Silent Contained source :=
  (silent_fitting Contained).ofSource (fun _ => contained_ground) fun _ => trivial

end Parse

/-- **In a text without complaints, every node is nested as it should.** -/
theorem parse_contained {text : String} (herr : (parse text).2 = []) :
    (parse text).1.EveryNode Parse.Contained :=
  (Parse.source_contained (lex text).1
    (List.append_eq_nil_iff.1 (SyntaxError.sortByStart_eq_nil.1 herr)).2).1

end CodeMend
