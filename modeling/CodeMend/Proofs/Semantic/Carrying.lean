import CodeMend.Proofs.Semantic.Dependence
import CodeMend.Proofs.Semantic.Matching

/-!
# Values in corresponding trees

A matching is `Carrying` if, besides what names refer to, all else that values are computed from
corresponds: what stands above a node, how leaves are spelled, and which member comes before a member.
Then the rule that gives a node its value gives its counterpart the same value, if what it looks up has
the same value (`Carrying.gives`), and what a node looks up has a counterpart that the counterpart of
the node looks up (`Carrying.uses`).
-/

namespace CodeMend

open Model Site

theorem Site.properAncestors_head? (s : Site) : s.properAncestors.head? = s.parent? := by
  obtain ⟨tree, start, above, origin⟩ := s
  cases above <;> rfl

/-- The search for the member before one passes over trivia. -/
theorem Site.find_among_significant {root p s : Site} (hp : p ∈ root.subtree) (hs : s ∈ root.subtree)
    (hkind : s.kind = .enumMemberDeclaration) :
    ((p.children.takeWhile fun t => !t.same s).reverse.find? fun t =>
      t.isNode && t.kind == .enumMemberDeclaration) =
    (((p.children.filter isSignificant).takeWhile fun t => !t.same s).reverse.find? fun t =>
      t.isNode && t.kind == .enumMemberDeclaration) := by
  have hself : ∀ t ∈ p.children, (!t.same s) = false → t.isSignificant = true := by
    intro t ht hsame
    have heq := (same_iff (mem_subtree_child hp ht) hs).1 (by simpa using hsame)
    exact Matching.isSignificant_of_kind (by rw [heq, hkind]; rfl)
  rw [← filter_takeWhile hself, ← List.filter_reverse, List.find?_filter]
  refine congrArg (List.find? · _) (funext fun t => ?_)
  cases ht : t.isNode with
  | false => simp
  | true =>
      rw [Matching.isSignificant_of_isNode ht]
      simp
      rfl

/-- The member before a member corresponds if what comes before it does. -/
theorem Matching.previousMember_matched {m m' : Model} (M : Matching m m') {s s' p p' : Site}
    (h : M.rel s s') (hkind : s.kind = .enumMemberDeclaration) (hp : s.parent? = some p)
    (hp' : s'.parent? = some p') (hrel : M.rel p p')
    (hbefore : List.Forall₂ M.rel ((p.children.filter isSignificant).takeWhile fun t => !t.same s)
      ((p'.children.filter isSignificant).takeWhile fun t => !t.same s')) :
    Option.Rel M.rel (previousMember? s) (previousMember? s') := by
  have hkind' : s'.kind = .enumMemberDeclaration := (M.kind_eq h).symm.trans hkind
  unfold previousMember? leftSiblings
  rw [hp, hp']
  dsimp only
  rw [find_among_significant (M.mem hrel).1 (M.mem h).1 hkind,
    find_among_significant (M.mem hrel).2 (M.mem h).2 hkind']
  exact find_matched (fun a b hab => by rw [M.kind_eq hab, M.isNode_eq hab])
    (List.forall₂_reverse_iff.2 hbefore)

/-- A matching along which values carry over. -/
structure Carrying (m m' : Model) extends Matching m m' where
  unshared : ∀ {s}, exempt s → s.kind ≠ .switchSection
  above : ∀ {s s'}, rel s s' → List.Forall₂ rel s.properAncestors s'.properAncestors
  firstToken_eq : ∀ {s s'}, rel s s' → s.firstToken?.map (fun t => (t.kind, t.text)) =
    s'.firstToken?.map fun t => (t.kind, t.text)
  previous : ∀ {s s'}, rel s s' → s.kind = .enumMemberDeclaration →
    Option.Rel rel (previousMember? s) (previousMember? s')
  identify : m.SpansIdentify
  identify' : m'.SpansIdentify

namespace Carrying

variable {m m' : Model} (C : Carrying m m') {s s' : Site}

theorem and_eq_and {c a b : Bool} (h : c = true → a = b) : (c && a) = (c && b) := by
  cases c with
  | false => rfl
  | true => rw [h rfl]

theorem parent_matched (h : C.rel s s') : Option.Rel C.rel s.parent? s'.parent? := by
  have hhead := head_matched (C.above h)
  rwa [properAncestors_head?, properAncestors_head?] at hhead

/-! ## Parts of expressions and declarations -/

theorem expression_matched (h : C.rel s s') (hs : ¬ C.exempt s) :
    Option.Rel C.rel s.expression? s'.expression? :=
  find_matched (fun _ _ hr => by rw [C.kind_eq hr]) (C.nodes h hs)

theorem right_matched (h : C.rel s s') (hs : ¬ C.exempt s) :
    Option.Rel C.rel s.right? s'.right? :=
  get_matched (C.expressions_matched h hs) 1

/-- The values of corresponding declarations correspond. -/
theorem value_matched (h : C.rel s s') (hs : ¬ C.exempt s) :
    Option.Rel C.rel s.value? s'.value? := by
  unfold value?
  rw [← C.kind_eq h]
  split
  · exact C.expression_matched h hs
  · refine bind_matched (C.child_matched .equalsValueClause h hs)
      fun c c' hc => ?_
    exact C.expression_matched hc.1 (C.not_exempt hc.2.2 nofun nofun nofun)

/-- A declarator declares a constant in both trees or in neither. -/
theorem isConstDeclarator_eq (h : C.rel s s') : isConstDeclarator s = isConstDeclarator s' := by
  have howner : Option.Rel C.rel (s.parent?.bind parent?) (s'.parent?.bind parent?) :=
    bind_matched (C.parent_matched h) fun _ _ hp => C.parent_matched hp
  refine any_eq_of_matched howner fun p p' hp => ?_
  rw [← C.kind_eq hp]
  refine congrArg₂ or (and_eq_and fun hkind => ?_) (and_eq_and fun hkind => ?_)
  · exact C.hasModifier_eq .constKw hp (C.not_exempt (beq_iff_eq.1 hkind) nofun nofun nofun)
  · exact C.hasToken_eq rfl hp (C.not_exempt (beq_iff_eq.1 hkind) nofun nofun nofun)

/-- Corresponding expressions have the same operator, and both are right shifts or neither is.
-/
theorem operator_eq (h : C.rel s s') (hs : ¬ C.exempt s) :
    s.operator? = s'.operator? ∧ s.isRightShift = s'.isRightShift := by
  have hsignificant (s : Site) : (s.tokens.filter fun t => !t.isTrivia) =
      s.tokens.filter fun t => !t.kind.isTrivia := by
    refine List.filter_congr fun t ht => ?_
    obtain ⟨tree, start, above, origin⟩ := t
    cases tree with
    | token k text => rfl
    | node k cs => cases (List.mem_filter.1 ht).2
  constructor
  · have htokens := C.tokensBy (q := fun k => !k.isTrivia) (fun k hk => by simpa using hk) h hs
    unfold operator? operatorToken?
    rw [← List.head?_filter, ← List.head?_filter, hsignificant, hsignificant]
    exact map_eq_of_matched (head_matched htokens) fun _ _ _ ht => C.kind_eq ht
  · have htokens := C.tokensBy (q := (· == .gt)) (fun k hk => by rw [beq_iff_eq.1 hk]; rfl) h hs
    unfold isRightShift
    rw [htokens.length_eq]

/-! ## Names -/

/-- The variable that a name sees corresponds. -/
theorem visible_matched (h : C.rel s s') (hkind : s.kind = .identifierName) (name : String) :
    Option.Rel C.Matches (s.visible? name) (s'.visible? name) := by
  have hwidth := C.solid h (by rw [hkind]; nofun) (by rw [hkind]; nofun)
  have hscopes : List.Forall₂ C.Scopes s.properAncestors s'.properAncestors := by
    have hmem : ∀ p ∈ s.properAncestors, p.isNode = true := fun p => isNode_of_mem_properAncestors
    refine ((List.forall₂_and_left _ _).2 ⟨hmem, C.above h⟩).imp fun p p' hp => ?_
    refine ⟨hp.2, hp.1, fun q hq t ht hexempt => ?_⟩
    have hsection : t.kind = .switchSection := beq_iff_eq.1 (List.mem_filter.1 ht).2
    exact C.unshared hexempt hsection
  have hnone : Option.Rel C.Matches (variableThrough? name s.start [])
      (variableThrough? name s'.start []) := .none
  have hthrough := C.variableThrough_matched hscopes h hwidth hnone
  rwa [List.append_nil, List.append_nil] at hthrough

theorem symbol_matched (h : C.rel s s') : Option.Rel C.Matches (m.symbol? s) (m'.symbol? s') :=
  C.toMatching.symbol_matched (fun {_ _} (_ : True) _ => trivial)
    (fun name h _ hkind _ => C.visible_matched h hkind name) h trivial

/-- The node that declares the constant a name refers to. -/
theorem declaration_matched (h : C.rel s s') {a : Symbol} (ha : m.symbol? s = some a)
    (hconst : a.isConst = true) {d : Site} (hd : d ∈ m.root.subnodes)
    (hnode : isConstantNode d = true) (hspan : a.declaration = some d.span) :
    ∃ b d', C.rel d d' ∧ m'.symbol? s' = some b ∧ b.isConst = true ∧ d' ∈ m'.root.subnodes ∧
      isConstantNode d' = true ∧ b.declaration = some d'.span := by
  have hsymbol := C.symbol_matched h
  rw [ha] at hsymbol
  generalize hb : m'.symbol? s' = y at hsymbol
  cases hsymbol with
  | @some _ b hab =>
      have hdeclaration := hab.declaration
      rw [hspan] at hdeclaration
      generalize hspan' : b.declaration = z at hdeclaration
      cases hdeclaration with
      | @some _ q hdeclares =>
          obtain ⟨n, n', hn, hisNode, hdn, rfl, hconstant⟩ := hdeclares
          have hconstant := hconstant hconst
          have hmem : n ∈ m.root.subnodes := List.mem_filter.2 ⟨(C.mem hn).1, hisNode⟩
          obtain rfl := C.identify d hd n hmem hnode hconstant hdn
          refine ⟨b, n', hn, rfl, hab.isConst ▸ hconst, ?_, ?_, hspan'⟩
          · exact List.mem_filter.2 ⟨(C.mem hn).2, (C.isNode_eq hn).symm.trans hisNode⟩
          · unfold isConstantNode
            rw [← C.kind_eq hn]
            exact hnode

/-! ## Values -/

/-- What a node uses has a counterpart that the counterpart of the node uses. -/
theorem uses {e : Site} (h : C.rel s s') (hs : ¬ C.exempt s) (huses : Uses m s e) :
    ∃ e', C.rel e e' ∧ Uses m' s' e' := by
  have hkind := C.kind_eq h
  cases huses with
  | parenthesized hk he =>
      obtain ⟨e', he', hrel⟩ := exists_of_rel (C.expression_matched h hs) he
      exact ⟨e', hrel, .parenthesized (hkind.symm.trans hk) he'⟩
  | unary hk he =>
      obtain ⟨e', he', hrel⟩ := exists_of_rel (C.expression_matched h hs) he
      exact ⟨e', hrel, .unary (hkind.symm.trans hk) he'⟩
  | left hk he =>
      obtain ⟨e', he', hrel⟩ := exists_of_rel (C.left_matched h hs) he
      exact ⟨e', hrel, .left (hkind.symm.trans hk) he'⟩
  | right hk he =>
      obtain ⟨e', he', hrel⟩ := exists_of_rel (C.right_matched h hs) he
      exact ⟨e', hrel, .right (hkind.symm.trans hk) he'⟩
  | name hname hsymbol hconst hd hnode hspan =>
      obtain ⟨b, d', hrel, hb, hconst', hd', hnode', hspan'⟩ :=
        C.declaration_matched h hsymbol hconst hd hnode hspan
      have hname' : isName s' = true := by
        unfold isName
        rwa [← hkind]
      exact ⟨d', hrel, .name hname' hb hconst' hd' hnode' hspan'⟩
  | declarator hk hconst he =>
      obtain ⟨e', he', hrel⟩ := exists_of_rel (C.value_matched h hs) he
      exact ⟨e', hrel, .declarator (hkind.symm.trans hk) (C.isConstDeclarator_eq h ▸ hconst) he'⟩
  | member hk he =>
      obtain ⟨e', he', hrel⟩ := exists_of_rel (C.value_matched h hs) he
      exact ⟨e', hrel, .member (hkind.symm.trans hk) he'⟩
  | previous hk hvalue hprevious =>
      obtain ⟨p', hp', hrel⟩ := exists_of_rel (C.previous h hk) hprevious
      exact ⟨p', hrel, .previous (hkind.symm.trans hk)
        (eq_none_of_rel (C.value_matched h hs) hvalue) hp'⟩

/-- The rule that gives a node a value gives its counterpart the same value, if what it looks up has
the same value. -/
theorem gives {V V' : Site → Constant → Prop} (h : C.rel s s') (hs : ¬ C.exempt s)
    (hV : ∀ e e' w, Uses m s e → C.rel e e' → V e w → V' e' w) {v : Constant}
    (hgives : Gives m V s v) : Gives m' V' s' v := by
  have hkind := C.kind_eq h
  cases hgives with
  | literal hk hfirst hvalue =>
      have hmap := C.firstToken_eq h
      rw [hfirst] at hmap
      obtain ⟨t', ht', htext⟩ := Option.map_eq_some_iff.1 hmap.symm
      obtain ⟨htKind, htText⟩ := Prod.mk.inj htext
      exact .literal (hkind.symm.trans hk) ht' (by rw [htKind, htText]; exact hvalue)
  | parenthesized hk he hv =>
      obtain ⟨e', he', hrel⟩ := exists_of_rel (C.expression_matched h hs) he
      exact .parenthesized (hkind.symm.trans hk) he' (hV _ _ _ (.parenthesized hk he) hrel hv)
  | unary hk he hfirst ha hv =>
      obtain ⟨e', he', hrel⟩ := exists_of_rel (C.expression_matched h hs) he
      have hmap := congrArg (Option.map Prod.fst) (C.firstToken_eq h)
      rw [Option.map_map, Option.map_map] at hmap
      exact .unary (hkind.symm.trans hk) he' (hmap.symm.trans hfirst)
        (hV _ _ _ (.unary hk he) hrel ha) hv
  | binary hk hshift hl hr hoperator ha hb hv =>
      obtain ⟨l', hl', hlRel⟩ := exists_of_rel (C.left_matched h hs) hl
      obtain ⟨r', hr', hrRel⟩ := exists_of_rel (C.right_matched h hs) hr
      obtain ⟨hop, hrs⟩ := C.operator_eq h hs
      exact .binary (hkind.symm.trans hk) (hrs ▸ hshift) hl' hr' (hop ▸ hoperator)
        (hV _ _ _ (.left hk hl) hlRel ha) (hV _ _ _ (.right hk hr) hrRel hb) hv
  | rightShift hk hshift hl hr ha hb hv =>
      obtain ⟨l', hl', hlRel⟩ := exists_of_rel (C.left_matched h hs) hl
      obtain ⟨r', hr', hrRel⟩ := exists_of_rel (C.right_matched h hs) hr
      exact .rightShift (hkind.symm.trans hk) ((C.operator_eq h hs).2 ▸ hshift) hl' hr'
        (hV _ _ _ (.left hk hl) hlRel ha) (hV _ _ _ (.right hk hr) hrRel hb) hv
  | name hname hsymbol hconst hd hnode hspan hv =>
      obtain ⟨b, d', hrel, hb, hconst', hd', hnode', hspan'⟩ :=
        C.declaration_matched h hsymbol hconst hd hnode hspan
      have hname' : isName s' = true := by
        unfold isName
        rwa [← hkind]
      exact .name hname' hb hconst' hd' hnode' hspan'
        (hV _ _ _ (.name hname hsymbol hconst hd hnode hspan) hrel hv)
  | declarator hk hconst he hv =>
      obtain ⟨e', he', hrel⟩ := exists_of_rel (C.value_matched h hs) he
      exact .declarator (hkind.symm.trans hk) (C.isConstDeclarator_eq h ▸ hconst) he'
        (hV _ _ _ (.declarator hk hconst he) hrel hv)
  | member hk he hv =>
      obtain ⟨e', he', hrel⟩ := exists_of_rel (C.value_matched h hs) he
      exact .member (hkind.symm.trans hk) he' (hV _ _ _ (.member hk he) hrel hv)
  | first hk hvalue hprevious =>
      exact .first (hkind.symm.trans hk) (eq_none_of_rel (C.value_matched h hs) hvalue)
        (eq_none_of_rel (C.previous h hk) hprevious)
  | next hk hvalue hprevious ha hn =>
      obtain ⟨p', hp', hrel⟩ := exists_of_rel (C.previous h hk) hprevious
      exact .next (hkind.symm.trans hk) (eq_none_of_rel (C.value_matched h hs) hvalue) hp'
        (hV _ _ _ (.previous hk hvalue hprevious) hrel ha) hn

end Carrying

end CodeMend
