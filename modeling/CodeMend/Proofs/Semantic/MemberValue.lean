import CodeMend.Proofs.Semantic.Altering
import CodeMend.Proofs.Semantic.Revaluing

/-!
# Replacing the value of a member

In a text without complaints, a member of an enumeration has a name before its value, and no type and
no other member stands in the value.  So a tree in which another expression is grafted in the place of
the value is matched with the old one, site by site, but for the value: this is a revaluing
(`exists_revaluing`).
-/

namespace CodeMend

open Tree Site

/-! ## Where the value of a member stands -/

theorem not_and_of_not_decide {a b : Bool} (h : (!decide (a = true ∧ b = true)) = true) :
    (a && b) = false := by
  refine Bool.eq_false_iff.2 fun hab => ?_
  rw [decide_eq_true (Bool.and_eq_true_iff.1 hab)] at h
  cases h

section Value

variable {version : Nat} {text : String} {member value : Site}
  (hclean : (Document.ofText version text).errors = [])
  (hmem : member ∈ (Document.ofText version text).root.subnodes)
  (hkind : member.kind = .enumMemberDeclaration) (hvalue : member.value? = some value)

include hclean hmem hkind hvalue

/-- The value of a member is the first expression of its first clause, which comes behind its name. -/
theorem Document.exists_clause : ∃ (clause : Site) (left right lead tail : List Site),
    member.children = left ++ clause :: right ∧ clause.children = lead ++ value :: tail ∧
    clause.isNode = true ∧ clause.kind = .equalsValueClause ∧
    (value.isNode && (value.kind.isExpression && value.kind != .type)) = true ∧
    (∀ r ∈ left, (r.isNode && r.kind == .equalsValueClause) = false) ∧
    (∀ r ∈ lead, (r.isNode && (r.kind.isExpression && r.kind != .type)) = false) ∧
    ∃ name, .token .ident name ∈ left.map Site.tree := by
  rw [value?, hkind, if_neg nofun] at hvalue
  obtain ⟨clause, hclause, hvalue⟩ := Option.bind_eq_some_iff.1 hvalue
  unfold child? nodes at hclause
  unfold expression? nodes at hvalue
  rw [List.find?_filter] at hclause hvalue
  obtain ⟨hclauseFits, left, right, hsplit, hleft⟩ := List.find?_eq_some_iff_append.1 hclause
  obtain ⟨hvalueFits, lead, tail, hsplit', hlead⟩ := List.find?_eq_some_iff_append.1 hvalue
  obtain ⟨hnode, hclauseKind⟩ := of_decide_eq_true hclauseFits
  have hclauseKind := beq_iff_eq.1 hclauseKind
  refine ⟨clause, left, right, lead, tail, hsplit, hsplit', hnode, hclauseKind,
    Bool.and_eq_true_iff.2 (of_decide_eq_true hvalueFits),
    fun r hr => not_and_of_not_decide (hleft r hr), fun r hr => not_and_of_not_decide (hlead r hr), ?_⟩
  have hcontained : member.tree.EveryNode Parse.Contained :=
    everyNode_of_mem.1 _ _ _ _ (parse_contained hclean) member (List.mem_filter.1 hmem).1
  rw [(above_of_split hsplit).1, hkind] at hcontained
  have hclauseTree : clause.tree.isNodeOf .equalsValueClause = true := by
    obtain ⟨tree, start, above, origin⟩ := clause
    cases tree with
    | token k spelling => cases hnode
    | node k cs =>
        obtain rfl : k = .equalsValueClause := hclauseKind
        rfl
  exact hcontained.1.2 _ _ _ rfl hclauseTree

/-- No node above the value of a member has both its span and its kind. -/
theorem Document.topmost_value : value ∈ (Document.ofText version text).root.subtree ∧
    value.isNode = true ∧ value.Topmost := by
  obtain ⟨clause, left, right, lead, tail, hsplit, hsplit', -, hclauseKind, hfits, -, -, name, hname⟩ :=
    Document.exists_clause hclean hmem hkind hvalue
  obtain ⟨hnode, hexpression⟩ := Bool.and_eq_true_iff.1 hfits
  have hmember := (List.mem_filter.1 hmem).1
  have hclauseChild : clause ∈ member.children := by
    rw [hsplit]
    simp
  have hvalueChild : value ∈ clause.children := by
    rw [hsplit']
    simp
  have hclauseMem := mem_subtree_child hmember hclauseChild
  have hvalueMem := mem_subtree_child hclauseMem hvalueChild
  refine ⟨hvalueMem, hnode, fun p hp hspan hsame => ?_⟩
  -- the member has its name beside the value, and all that is further up is as wide as the member
  have hwide : value.tree.width < member.tree.width := by
    have hvalueWidth : value.tree.width ≤ clause.tree.width := by
      have htree := (above_of_split hsplit').1
      rw [htree]
      exact width_le_widthAll (List.mem_append_right _ List.mem_cons_self)
    have hnameWidth : 0 < (Tree.token .ident name).width := by
      have hmemTree : .token .ident name ∈ member.tree.children := by
        rw [(above_of_split hsplit).1]
        exact List.mem_append_left _ hname
      have htokens : (.ident, name) ∈ (parse text).1.tokens := by
        refine tokens_subset_of_mem hmember ?_
        obtain ⟨tree, start, above, origin⟩ := member
        cases tree with
        | token k spelling => cases hmemTree
        | node k cs => exact mem_tokensAll hmemTree
      refine Nat.pos_of_ne_zero fun hzero => ?_
      exact (parse_tokens_solid htokens).resolve_right nofun (String.utf8ByteSize_eq_zero_iff.1 hzero)
    have hall : (Tree.token .ident name).width + clause.tree.width ≤ member.tree.width := by
      have hle := width_le_widthAll hname
      rw [(above_of_split hsplit).1]
      show _ ≤ widthAll (left.map Site.tree ++ clause.tree :: right.map Site.tree)
      rw [widthAll_append, widthAll]
      omega
    omega
  have hwidth : p.tree.width = value.tree.width := by
    have hstop := congrArg Span.stop hspan
    have hstart := congrArg Span.start hspan
    simp only [span, Span.ofLength] at hstop hstart
    omega
  rw [properAncestors_of_parent? (parent?_of_mem_children hvalueChild),
    properAncestors_of_parent? (parent?_of_mem_children hclauseChild)] at hp
  rcases List.mem_cons.1 hp with rfl | hp
  · rw [← hsame, hclauseKind] at hexpression
    cases hexpression
  · rcases List.mem_cons.1 hp with rfl | hp
    · omega
    · have hle := width_le_of_mem_properAncestors hp
      omega

end Value

/-! ## The edit -/

/-- Kinds of nodes that declare neither types nor constants. -/
def Kind.isPlain (k : Kind) : Bool := !Parse.isOuter k && k != .variableDeclarator

/-- A node that declares a constant has a token of its own. -/
def NamedConstant (k : Kind) (cs : List Tree) : Prop :=
  k = .enumMemberDeclaration ∨ k = .variableDeclarator →
    ∃ token ∈ cs, token.isNode = false ∧ 0 < token.width

/-- A declaration of a constant has a name of its own, as its shape says, and the name has text.
-/
theorem namedConstant_of_shaped :
    (∀ t : Tree, t.EveryNode Parse.Shaped → (∀ x ∈ t.tokens, x.2 ≠ "" ∨ x.1 = .endOfFile) →
      t.EveryNode NamedConstant) ∧
    ∀ ts, EveryNodeAmong Parse.Shaped ts → (∀ x ∈ tokensAll ts, x.2 ≠ "" ∨ x.1 = .endOfFile) →
      EveryNodeAmong NamedConstant ts := by
  apply induct
  · exact fun _ _ _ _ => trivial
  · intro k cs ih hshaped hsolid
    refine ⟨fun hk => ?_, ih hshaped.2 hsolid⟩
    obtain ⟨name, hname⟩ : ∃ name, .token .ident name ∈ cs := by
      rcases hk with rfl | rfl <;> exact hshaped.1
    refine ⟨_, hname, rfl, Nat.pos_of_ne_zero fun hzero => ?_⟩
    exact (hsolid _ (mem_tokensAll hname)).resolve_right nofun
      (String.utf8ByteSize_eq_zero_iff.1 hzero)
  · exact fun _ _ => trivial
  · intro t ts ht hts hshaped hsolid
    refine ⟨ht hshaped.1 fun x hx => ?_, hts hshaped.2 fun x hx => ?_⟩
    · exact hsolid x (List.mem_append_left _ hx)
    · exact hsolid x (List.mem_append_right _ hx)

/-- A member of an enumeration gets another expression as its value. -/
structure MemberEdit (version : Nat) (text : String) (d' : Document) (member value : Site)
    (new : Tree) : Prop where
  clean : (Document.ofText version text).errors = []
  mem : member ∈ (Document.ofText version text).root.subnodes
  kind : member.kind = .enumMemberDeclaration
  value_eq : member.value? = some value
  tree_eq : d'.tree = value.graft [new]
  isExpression : (new.isNode && new.kind.isExpression && new.kind != .type) = true
  width_pos : 0 < new.width
  plain : new.EveryNode fun k _ => k.isPlain = true

namespace MemberEdit

variable {version : Nat} {text : String} {d' : Document} {member value : Site} {new : Tree}
  (E : MemberEdit version text d' member value new)

include E

/-- The trees differ in the clause of the value, which does not come first in the member. -/
theorem exists_hole : ∃ (clause : Site) (left right lead tail : List Site),
    member.children = left ++ clause :: right ∧ clause.children = lead ++ value :: tail ∧
    clause.isNode = true ∧ clause.kind = .equalsValueClause ∧ left ≠ [] ∧
    (∀ r ∈ left, (r.isNode && r.kind == .equalsValueClause) = false) ∧
    (∀ r ∈ lead, (r.isNode && (r.kind.isExpression && r.kind != .type)) = false) ∧
    Hole clause.tree (.node .equalsValueClause (lead.map tree ++ new :: tail.map tree))
      (left.length :: member.path) (Document.ofText version text).tree d'.tree := by
  obtain ⟨clause, left, right, lead, tail, hsplit, hsplit', hnode, hkind, -, hleft, hlead,
    name, hname⟩ := Document.exists_clause E.clean E.mem E.kind E.value_eq
  obtain ⟨-, habove⟩ := above_of_split hsplit
  obtain ⟨-, habove'⟩ := above_of_split hsplit'
  have hclauseMem : clause ∈ (Document.ofText version text).root.subtree :=
    mem_subtree_child (List.mem_filter.1 E.mem).1 (by rw [hsplit]; simp)
  refine ⟨clause, left, right, lead, tail, hsplit, hsplit', hnode, hkind, ?_, hleft, hlead, ?_⟩
  · rintro rfl
    cases hname
  · have hrebuild := rebuild_eq hclauseMem
    have hgraft : d'.tree = rebuild (.node .equalsValueClause (lead.map tree ++ new :: tail.map tree))
        clause.above := by
      rw [E.tree_eq, graft, habove']
      simp only [List.reverse_reverse, List.singleton_append, hkind]
    have hpath : pathOf clause.above = left.length :: member.path := by
      rw [habove]
      simp [pathOf, path]
    have hhere : Hole clause.tree (.node .equalsValueClause (lead.map tree ++ new :: tail.map tree)) []
      clause.tree (.node .equalsValueClause (lead.map tree ++ new :: tail.map tree)) := .here
    have hhole := hhere.rebuild clause.above
    rw [List.nil_append, hpath, hrebuild, ← hgraft] at hhole
    exact hhole

/-- No type and no member of an enumeration stands in the clause, before or after. -/
theorem undeclared {clause : Site} {left right lead tail : List Site}
    (hsplit : member.children = left ++ clause :: right)
    (hclause : clause.tree = .node .equalsValueClause (lead.map tree ++ value.tree :: tail.map tree)) :
    clause.tree.EveryNode (fun k _ => Parse.isOuter k = false) ∧
      (Tree.node .equalsValueClause (lead.map tree ++ new :: tail.map tree)).EveryNode fun k _ =>
        Parse.isOuter k = false := by
  have hcontained : member.tree.EveryNode Parse.Contained :=
    everyNode_of_mem.1 _ _ _ _ (parse_contained E.clean) member (List.mem_filter.1 E.mem).1
  rw [(above_of_split hsplit).1, E.kind] at hcontained
  have hold := (everyNodeAmong_append.1 hcontained.1.1).2.1
  refine ⟨hold, rfl, everyNodeAmong_append.2 ⟨?_, ?_, ?_⟩⟩
  · rw [hclause] at hold
    exact (everyNodeAmong_append.1 hold.2).1
  · refine (everyNode_mono (fun k cs hk => ?_)).1 _ E.plain
    simpa [Kind.isPlain] using (Bool.and_eq_true_iff.1 hk).1
  · rw [hclause] at hold
    exact (everyNodeAmong_append.1 hold.2).2.2

/-- Declarations of constants have names after the edit too, since only a value changes. -/
theorem namedConstants {clause : Site} {left lead tail : List Site}
    (hole : Hole clause.tree (.node .equalsValueClause (lead.map tree ++ new :: tail.map tree))
      (left.length :: member.path) (Document.ofText version text).tree d'.tree)
    (hclause : clause.tree = .node .equalsValueClause (lead.map tree ++ value.tree :: tail.map tree)) :
    ∀ s ∈ d'.root.subnodes, Model.isConstantNode s = true → s.Named := by
  have hnamed : (Document.ofText version text).tree.EveryNode NamedConstant :=
    namedConstant_of_shaped.1 _ (parse_shaped E.clean) fun x hx => parse_tokens_solid hx
  have hold := hole.everyNode hnamed
  rw [hclause] at hold
  have hnew : (Tree.node .equalsValueClause (lead.map tree ++ new :: tail.map tree)).EveryNode
      NamedConstant := by
    refine ⟨?_, everyNodeAmong_append.2 ⟨(everyNodeAmong_append.1 hold.2).1, ?_,
      (everyNodeAmong_append.1 hold.2).2.2⟩⟩
    · rintro (h | h) <;> cases h
    · refine (everyNode_mono (fun k cs hk => ?_)).1 _ E.plain
      rintro (rfl | rfl) <;> cases hk
  intro s hs hconstant
  obtain ⟨hmem, hnode⟩ := List.mem_filter.1 hs
  have hkind : s.kind = .enumMemberDeclaration ∨ s.kind = .variableDeclarator := by
    simpa [Model.isConstantNode] using hconstant
  by_cases hapart : (left.length :: member.path) <:+ s.path
  · obtain ⟨p, -, -, htree, hbelow⟩ := hole.symm.mem_place hmem hapart
    rw [subtree, htree] at hbelow
    have heach := everyNode_of_mem.1 _ _ _ _ hnew s hbelow
    obtain ⟨tree, start, above, origin⟩ := s
    cases tree with
    | token k spelling => cases hnode
    | node k cs => exact ⟨rfl, heach.1 hkind⟩
  · obtain ⟨r, hbeside, htwin⟩ := hole.symm.exists_beside hmem hapart
      (Document.ofText version text).origin
    have hpatched := htwin.patched
    have hrNode : r.isNode = true := by
      rw [Site.isNode, Tree.isNode, ← hpatched.isToken_eq]
      exact hnode
    have hr : r ∈ (Document.ofText version text).root.subnodes :=
      List.mem_filter.2 ⟨hbeside.mem', hrNode⟩
    have hrConstant : Model.isConstantNode r = true := by
      rw [Model.isConstantNode, Site.kind, ← hpatched.kind_eq]
      exact hconstant
    refine named_of_tokens (Document.named_constantNode E.clean hr hrConstant) hnode ?_
    exact (hpatched.tokens_eq rfl (by rw [hclause]; rfl)).symm

omit E in
/-- Nodes of a kind that stands outside of values pair up, in the order of the text. -/
theorem outer_matched {clause : Site} {c' : Tree} {w : List Nat} (q : Kind → Bool)
    (hq : ∀ k, q k = true → Parse.isOuter k = true)
    (hole : Hole clause.tree c' w (Document.ofText version text).tree d'.tree)
    (hold : clause.tree.EveryNode fun k _ => Parse.isOuter k = false)
    (hnew : c'.EveryNode fun k _ => Parse.isOuter k = false) :
    List.Forall₂ (Beside (· = w) (Document.ofText version text).root d'.root)
      ((Document.ofText version text).root.subnodes.filter (q ·.kind))
      (d'.root.subnodes.filter (q ·.kind)) := by
  have hnone {t : Tree} (ht : t.EveryNode fun k _ => Parse.isOuter k = false) (origin here : Nat)
      (above : List Frame) : ∀ s ∈ subtreeOf origin here above t,
        (q s.tree.kind && s.tree.isNode) = false := by
    intro s hs
    have heach := everyNode_of_mem.1 _ _ _ _ ht s hs
    obtain ⟨tree, start, above, origin⟩ := s
    cases tree with
    | token k spelling => exact Bool.and_false _
    | node k cs =>
        refine Bool.and_eq_false_iff.2 (Or.inl (Bool.eq_false_iff.2 fun hk => ?_))
        exact Bool.noConfusion ((hq k hk).symm.trans heach.1)
  unfold subnodes
  rw [List.filter_filter, List.filter_filter]
  exact hole.filter_sites (p := fun t => q t.kind && t.isNode)
    (fun t t' h => by rw [h.kind_eq, Tree.isNode, Tree.isNode, h.isToken_eq]) (hnone hold)
    (hnone hnew) _ _

omit E in
/-- The tree of the member after the edit. -/
theorem tree_of_twin {c' : Tree} {t t' : Tree} {origin origin' : Nat} {clause member' : Site}
    {left right : List Site}
    (hole : Hole clause.tree c' (left.length :: member.path) t t')
    (hbeside : Beside (· = left.length :: member.path) (top origin t) (top origin' t') member member')
    (htwin : Twin clause.tree c' (left.length :: member.path) member member')
    (hsplit : member.children = left ++ clause :: right) :
    member'.tree = .node member.kind (left.map tree ++ c' :: right.map tree) := by
  have htree := (above_of_split hsplit).1
  rcases htwin.2 with heq | ⟨v, -, hpath, hbelow⟩
  · -- the same tree twice: then the clauses are the same as well
    obtain ⟨place, hplace, hplacePath, hplaceTree⟩ := hole.symm.exists_place origin'
    have hclause : clause ∈ member.subtree :=
      mem_subtree_child (mem_subtree_self _) (by rw [hsplit]; simp)
    have hclausePath : clause.path = left.length :: member.path := by
      rw [path, (above_of_split hsplit).2]
      simp [path]
    obtain ⟨clause', hmem', halike⟩ := exists_of_mem_left (sites_alike.1 member.tree member.origin
      member'.origin member.start member'.start member.above member'.above hbeside.path_eq) hclause
    rw [heq] at hmem'
    have hsame := eq_of_path_eq.1 _ _ _ _ clause' (subtree_trans.1 _ _ _ _ member' hbeside.mem' clause' hmem') place hplace
      (halike.1.symm.trans (hclausePath.trans hplacePath.symm))
    rw [← heq, ← hplaceTree, ← hsame, ← halike.2]
    exact htree
  · have hv : v = [left.length] := List.append_cancel_right
      (show v ++ _ = [left.length] ++ _ from hpath)
    rw [htree, hv] at hbelow
    generalize hlist : left.map tree ++ clause.tree :: right.map tree = ts at hbelow
    generalize hway : [left.length] = way at hbelow
    generalize member'.tree = u at hbelow ⊢
    generalize clause.tree = c at hbelow hlist
    cases hbelow with
    | here => cases hway
    | @inside w t t' k before after hrest =>
        obtain ⟨rfl, hlength⟩ : w = [] ∧ before.length = left.length := by
          cases w with
          | nil => exact ⟨rfl, (List.cons.inj hway).1.symm⟩
          | cons i w => cases w <;> cases hway
        obtain ⟨rfl, rfl⟩ := hrest.eq_of_nil
        obtain ⟨hbefore, hafter⟩ := List.append_inj hlist (by simp [hlength])
        rw [← hbefore, ← (List.cons.inj hafter).2]

/-- The clause of the value is the one place where counterparts may differ. -/
theorem altering {clause : Site} {left right lead tail : List Site}
    (hsplit : member.children = left ++ clause :: right)
    (hclause : clause.tree = .node .equalsValueClause (lead.map tree ++ value.tree :: tail.map tree))
    (hole : Hole clause.tree (.node .equalsValueClause (lead.map tree ++ new :: tail.map tree))
      (left.length :: member.path) (Document.ofText version text).tree d'.tree) :
    Altering version text d' (· = left.length :: member.path) where
  clean := E.clean
  like h := (h.twin hole).patched.like
  type_eq h htype := by
    refine Document.eq_of_type E.clean h.mem htype (fun hpart => ?_) (h.twin hole).patched
    rw [hclause] at hpart
    cases hpart.1
  named := by
    intro s s' h htype
    obtain ⟨hsNode, hsType⟩ := Bool.and_eq_true_iff.1 htype
    refine named_of_tokens (Document.named_type E.clean h.mem hsNode hsType) ?_ ?_
    · rw [Site.isNode, Tree.isNode, ← (h.twin hole).patched.isToken_eq]
      exact hsNode
    · exact (h.twin hole).patched.tokens_eq (by rw [hclause]; rfl) rfl
  solid := by
    intro s s' h hwidth
    rcases (h.twin hole).patched with heq | ⟨v, -, hbelow⟩
    · rwa [← heq]
    · have hle := hbelow.width_le.2
      have hnew : new.width ≤ widthAll (lead.map tree ++ new :: tail.map tree) :=
        width_le_widthAll (List.mem_append_right _ List.mem_cons_self)
      have hpos := E.width_pos
      rw [width] at hle
      omega
  declared := outer_matched Kind.isTypeDeclaration (fun k hk => by
    unfold Kind.isTypeDeclaration at hk
    split at hk <;> first | rfl | cases hk) hole (E.undeclared hsplit hclause).1
    (E.undeclared hsplit hclause).2

/-- The sites beside the value of the member, as a matching of the models. -/
def matching (catalog : Catalog) {clause : Site} {left right lead tail : List Site}
    (hsplit : member.children = left ++ clause :: right)
    (hclause : clause.tree = .node .equalsValueClause (lead.map tree ++ value.tree :: tail.map tree))
    (hole : Hole clause.tree (.node .equalsValueClause (lead.map tree ++ new :: tail.map tree))
      (left.length :: member.path) (Document.ofText version text).tree d'.tree) :
    Matching (.ofDocument (.ofText version text) catalog) (.ofDocument d' catalog) :=
  (E.altering hsplit hclause hole).matching catalog (· = member) (fun _ => false)
    (by
      rintro s rfl
      exact Or.inl E.kind)
    (by
      intro s s' h _
      rw [identText?_eq, identText?_eq,
        (h.twin hole).patched.tokens_eq (by rw [hclause]; rfl) rfl])
    (by
      intro s s' h hne
      have hparent : ∀ i, ¬ i :: s.path = left.length :: member.path := by
        intro i heq
        refine hne (eq_of_path_eq.1 _ _ _ _ s h.mem member (List.mem_filter.1 E.mem).1 ?_)
        exact (List.cons.inj heq).2
      have hchildren := h.children hparent
        ((h.twin hole).patched.children_matched (by rw [hclause]; rfl))
      exact (filter_matched (fun r r' hr => by rw [isSignificant, isSignificant, hr.2])
        hchildren).imp fun _ _ hr => hr.1)
    (by
      rintro s s' - rfl hkind
      cases E.kind.symm.trans hkind)
    (fun _ _ _ => rfl)

/-- No member of an enumeration stands right below the one whose value changes. -/
theorem not_below {s p : Site} (hs : s ∈ (Document.ofText version text).root.subtree)
    (hkind : s.kind = .enumMemberDeclaration) (hp : s.parent? = some p) : p ≠ member := by
  rintro rfl
  have hnode := Document.isNode_of_member hs hkind
  have hmember := (List.mem_filter.1 E.mem).1
  have hcontained : p.tree.EveryNode Parse.Contained :=
    everyNode_of_mem.1 _ _ _ _ (parse_contained E.clean) p hmember
  have hpKind := E.kind
  obtain ⟨tree, start, above, origin⟩ := s
  cases above with
  | nil => cases hp
  | cons f fs =>
      cases hp
      obtain ⟨k, before, after, start⟩ := f
      obtain rfl : k = .enumMemberDeclaration := hpKind
      have hbelow := (everyNodeAmong_append.1 hcontained.1.1).2.1
      cases tree with
      | token k spelling => cases hnode
      | node k cs =>
          obtain rfl : k = .enumMemberDeclaration := hkind
          cases hbelow.1

/-- The member before a member corresponds, in a matching that exempts only the one whose value
changes. -/
theorem previous_matched {m m' : Model} (M : Matching m m') (hroot : m.root = (Document.ofText version text).root)
    (hexempt : ∀ {s}, M.exempt s → s = member) {s s' : Site} (h : M.rel s s')
    (hparent : Option.Rel M.rel s.parent? s'.parent?) (hkind : s.kind = .enumMemberDeclaration) :
    Option.Rel M.rel (Model.previousMember? s) (Model.previousMember? s') := by
  generalize hp : s.parent? = x at hparent
  generalize hp' : s'.parent? = y at hparent
  cases hparent with
  | none =>
      rw [Model.previousMember?, Model.previousMember?, leftSiblings, leftSiblings, hp, hp']
      exact .none
  | some hrel =>
      refine M.previousMember_matched h hkind hp hp' hrel ?_
      refine takeWhile_matched (fun a b hab => by rw [M.same_eq hab h])
        (M.children hrel fun hs => E.not_below (hroot ▸ (M.mem h).1) hkind hp (hexempt hs))

theorem wellPlaced (catalog : Catalog) : Model.WellPlaced (.ofDocument d' catalog) := by
  obtain ⟨clause, left, right, lead, tail, -, hsplit', -, hkind, -, -, -, hole⟩ := E.exists_hole
  have hclause := (above_of_split hsplit').1
  rw [hkind] at hclause
  exact Model.wellPlaced_of_named catalog (E.namedConstants hole hclause)

/-- **Another value for a member is a revaluing.**  The member has the new value, and the members of
all enumerations pair up in the order of the text. -/
theorem exists_revaluing (catalog : Catalog) :
    ∃ R : Revaluing (.ofDocument (.ofText version text) catalog) (.ofDocument d' catalog),
      R.member = member ∧
      List.Forall₂ R.rel
        ((Document.ofText version text).root.subnodes.filter (·.kind == .enumMemberDeclaration))
        (d'.root.subnodes.filter (·.kind == .enumMemberDeclaration)) ∧
      ∃ value' clause', R.member'.value? = some value' ∧ value'.tree = new ∧
        value'.parent? = some clause' ∧ clause'.kind = .equalsValueClause ∧
        clause'.parent? = some R.member' := by
  obtain ⟨clause, left, right, lead, tail, hsplit, hsplit', -, hkind, hleft, hleftOther,
    hleadOther, hole⟩ := E.exists_hole
  have hclause := (above_of_split hsplit').1
  rw [hkind] at hclause
  have hmem := (List.mem_filter.1 E.mem).1
  -- the clause is below the member, so the member stands beside the hole
  have hapart : ¬ (left.length :: member.path) <:+ member.path := by
    intro h
    have hlength := h.length_le
    simp only [List.length_cons] at hlength
    omega
  obtain ⟨member', hbeside, htwin⟩ := hole.exists_beside hmem hapart d'.origin
  let M := E.matching catalog hsplit hclause hole
  let R : Revaluing (.ofDocument (.ofText version text) catalog) (.ofDocument d' catalog) :=
    { toMatching := M
      member := member
      member' := member'
      member_rel := hbeside
      member_kind := E.kind
      eq_of_exempt := fun h => h
      none_fresh := fun _ => rfl
      unshared := fun hs hkind => by
        rw [show _ = member from hs, E.kind] at hkind
        cases hkind
      above := fun h => h.above
      firstToken_eq := fun h => (h.twin hole).firstToken_eq (Or.inl (by simpa using hleft))
      previous := fun h hkind => by
        have hparent := head_matched h.above
        rw [properAncestors_head?, properAncestors_head?] at hparent
        exact E.previous_matched M rfl (fun h => h) h hparent hkind
      identify := (Document.wellPlaced E.clean catalog).identify
      identify' := (E.wellPlaced catalog).identify }
  refine ⟨R, rfl, ?_, ?_⟩
  · exact outer_matched (· == .enumMemberDeclaration) (fun k hk => by rw [beq_iff_eq.1 hk]; rfl) hole
      (E.undeclared hsplit hclause).1 (E.undeclared hsplit hclause).2
  · have htree : member'.tree = .node member.kind
        (left.map tree ++ .node .equalsValueClause (lead.map tree ++ new :: tail.map tree) ::
          right.map tree) :=
      tree_of_twin hole hbeside htwin hsplit
    obtain ⟨left', clause', right', hchildren, hleft', hclause', -⟩ := exists_split htree
    obtain ⟨lead', value', tail', hchildren', hlead', hvalue', -⟩ := exists_split hclause'
    have hclauseKind : clause'.kind = .equalsValueClause := congrArg Tree.kind hclause'
    -- the clause and the value are the first of their kinds, as they were before
    have hchild : member'.child? .equalsValueClause = some clause' :=
      find_nodes (p := (· == .equalsValueClause)) hchildren
        (by rw [Site.isNode, hclause', hclauseKind]; rfl) (forall_of_trees (p := (· == .equalsValueClause)) hleft' hleftOther)
    have hexpression : clause'.expression? = some value' :=
      find_nodes (p := fun k => k.isExpression && k != .type) hchildren'
        (by rw [Site.isNode, Site.kind, hvalue', ← Bool.and_assoc]; exact E.isExpression)
        (forall_of_trees (p := fun k => k.isExpression && k != .type) hlead' hleadOther)
    refine ⟨value', clause', ?_, hvalue', ?_, hclauseKind, ?_⟩
    · have hkind' : member'.kind = .enumMemberDeclaration := by
        rw [Site.kind, htree]
        exact E.kind
      rw [value?, hkind', if_neg (by decide), show R.member'.child? .equalsValueClause = _ from hchild]
      exact hexpression
    · exact parent?_of_mem_children (by rw [hchildren']; simp)
    · exact parent?_of_mem_children (by rw [hchildren]; simp)

end MemberEdit

end CodeMend
