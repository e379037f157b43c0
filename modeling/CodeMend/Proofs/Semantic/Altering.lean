import CodeMend.Proofs.Edit.Holes
import CodeMend.Proofs.Parser.Nesting
import CodeMend.Proofs.Semantic.Carrying

/-!
# Matchings of edited documents

An edit of a document without complaints leaves most sites in their places.  If the counterparts, site
by site, are trees of one kind, declare the same types and have text (`Altering`), then they make up a
matching of the models (`Altering.matching`); what remains to be said is what happens to the children
of the one node that is edited.
-/

namespace CodeMend

open Tree Site

/-! ## Documents without complaints -/

section Clean

variable {version : Nat} {text : String} {s : Site}

/-- Where every node has a token and every token has text, every node has text. -/
theorem width_pos_of_full :
    (∀ t : Tree, t.EveryNode FullNode → (∀ x ∈ t.tokens, x.2 ≠ "") →
      t.EveryNode fun _ cs => 0 < widthAll cs) ∧
    ∀ ts, EveryNodeAmong FullNode ts → (∀ x ∈ tokensAll ts, x.2 ≠ "") →
      EveryNodeAmong (fun _ cs => 0 < widthAll cs) ts := by
  apply induct
  · exact fun _ _ _ _ => trivial
  · intro k cs ih hfull hsolid
    refine ⟨?_, ih hfull.2 hsolid⟩
    have hsolid : ∀ x ∈ tokensAll cs, x.2 ≠ "" := hsolid
    show 0 < widthAll cs
    rw [width_eq.2]
    refine Nat.pos_of_ne_zero fun hzero => hfull.1.1 ?_
    rw [← solid_eq_self hsolid]
    exact solid_eq_nil hzero
  · exact fun _ _ => trivial
  · intro t ts ht hts hfull hsolid
    refine ⟨ht hfull.1 fun x hx => ?_, hts hfull.2 fun x hx => ?_⟩
    · exact hsolid x (List.mem_append_left _ hx)
    · exact hsolid x (List.mem_append_right _ hx)

/-- Everything but the whole text and its end has text. -/
theorem Document.width_pos (hclean : (Document.ofText version text).errors = [])
    (hs : s ∈ (Document.ofText version text).root.subtree) (hunit : s.kind ≠ .compilationUnit)
    (hend : s.kind ≠ .endOfFile) : 0 < s.tree.width := by
  obtain ⟨cs, htree, -, -, hfull⟩ := parse_tree_closed text
  obtain ⟨cs', htree', -, hsolid⟩ := parse_tree_solid text
  obtain rfl : cs = cs' :=
    List.append_cancel_right (congrArg Tree.children (htree.symm.trans htree'))
  have hpos : EveryNodeAmong (fun _ ds => 0 < widthAll ds) (cs ++ [.token .endOfFile ""]) :=
    everyNodeAmong_append.2 ⟨width_pos_of_full.2 cs (hfull hclean) hsolid, trivial, trivial⟩
  have hroot : (Document.ofText version text).root.subtree =
      subtreeOf version 0 [] (.node .compilationUnit (cs ++ [.token .endOfFile ""])) := by
    rw [← htree]
    rfl
  have htokens := tokens_subset_of_mem hs
  rw [hroot] at hs
  rcases List.mem_cons.1 hs with rfl | hs
  · exact absurd rfl hunit
  · have hnode := everyNode_of_mem.2 _ _ _ _ _ _ _ hpos s hs
    obtain ⟨tree, start, above, origin⟩ := s
    cases tree with
    | node k ds => exact hnode.1
    | token k spelling =>
        have hspelling := @parse_tokens_solid text _ (htokens (List.mem_singleton_self _))
        refine Nat.pos_of_ne_zero fun hzero => ?_
        exact hspelling.resolve_right hend (String.utf8ByteSize_eq_zero_iff.1 hzero)

/-- A type has a closing brace right below it. -/
theorem Document.named_type (hclean : (Document.ofText version text).errors = [])
    (hs : s ∈ (Document.ofText version text).root.subtree) (hnode : s.isNode = true)
    (htype : s.kind.isTypeDeclaration = true) : s.Named := by
  have hshaped : s.tree.EveryNode Parse.Shaped :=
    everyNode_of_mem.1 _ _ _ _ (parse_shaped hclean) s hs
  have htokens := tokens_subset_of_mem hs
  refine ⟨hnode, ?_⟩
  obtain ⟨tree, start, above, origin⟩ := s
  cases tree with
  | token k spelling => cases hnode
  | node k cs =>
      obtain ⟨spelling, hbrace⟩ : ∃ spelling, .token .rBrace spelling ∈ cs := by
        have hkind : k = .classDeclaration ∨ k = .structDeclaration ∨ k = .interfaceDeclaration ∨
            k = .enumDeclaration := by
          have htype : k.isTypeDeclaration = true := htype
          unfold Kind.isTypeDeclaration at htype
          split at htype <;> simp at htype ⊢
        rcases hkind with rfl | rfl | rfl | rfl <;> exact hshaped.1.1.2
      refine ⟨_, hbrace, rfl, ?_⟩
      have hsolid := parse_tokens_solid (htokens (mem_tokensAll hbrace))
      exact Nat.pos_of_ne_zero fun hzero =>
        hsolid.resolve_right nofun (String.utf8ByteSize_eq_zero_iff.1 hzero)

/-- No token is a member of an enumeration. -/
theorem Document.isNode_of_member (hs : s ∈ (Document.ofText version text).root.subtree)
    (hkind : s.kind = .enumMemberDeclaration) : s.isNode = true := by
  have htokens := tokens_subset_of_mem hs
  obtain ⟨tree, start, above, origin⟩ := s
  cases tree with
  | node k cs => rfl
  | token k spelling =>
      obtain rfl : k = .enumMemberDeclaration := hkind
      have hmem : (.enumMemberDeclaration, spelling) ∈ (parse text).1.tokens :=
        htokens (List.mem_singleton_self _)
      rw [parse_tokens] at hmem
      obtain ⟨t, ht, hstored⟩ := List.mem_map.1 hmem
      have htKind : t.kind = .enumMemberDeclaration := congrArg Prod.fst hstored
      rcases lexFrom_kinds _ _ _ _ t ht with hend | ⟨lineStart, c, cs, hlexeme⟩
      · cases htKind.symm.trans hend
      · exact absurd (hlexeme.symm.trans htKind) (Lexer.lexeme_kind_ne
          (k := .enumMemberDeclaration) (fun _ => nofun) rfl rfl (by decide) (by decide) lineStart cs)

end Clean

/-! ## Trees that differ in one node -/

namespace Site

variable {c c' t t' : Tree} {w : List Nat}

/-- What stands above a site is its parent and what stands above that. -/
theorem properAncestors_of_parent? {s p : Site} (h : s.parent? = some p) :
    s.properAncestors = p :: p.properAncestors := by
  obtain ⟨tree, start, above, origin⟩ := s
  cases above with
  | nil => cases h
  | cons f fs =>
      obtain rfl := Option.some.inj h
      rfl

/-- The first node with a property among the children of a site. -/
theorem find_nodes {s r : Site} {left right : List Site} {p : Kind → Bool}
    (hsplit : s.children = left ++ r :: right) (hr : (r.isNode && p r.kind) = true)
    (hleft : ∀ q ∈ left, (q.isNode && p q.kind) = false) :
    s.nodes.find? (p ·.kind) = some r := by
  unfold nodes
  rw [List.find?_filter, List.find?_eq_some_iff_append]
  refine ⟨decide_eq_true (Bool.and_eq_true_iff.1 hr), left, right, hsplit, fun q hq => ?_⟩
  rw [Bool.not_eq_true', decide_eq_false_iff_not, ← Bool.and_eq_true_iff, hleft q hq]
  exact Bool.false_ne_true

/-- What the kinds of trees in a row say of sites says it of other sites with these trees. -/
theorem forall_of_trees {p : Kind → Bool} {left left' : List Site}
    (htrees : left'.map tree = left.map tree)
    (h : ∀ r ∈ left, (r.isNode && p r.kind) = false) : ∀ r ∈ left', (r.isNode && p r.kind) = false := by
  intro r hr
  have hmem : r.tree ∈ left.map tree := htrees ▸ List.mem_map_of_mem hr
  obtain ⟨q, hq, htree⟩ := List.mem_map.1 hmem
  rw [Site.isNode, Site.kind, ← htree]
  exact h q hq

theorem Hole.isToken_eq (hole : Hole c c' w t t') (hc : c.isToken = false) (hc' : c'.isToken = false) :
    t.isToken = false ∧ t'.isToken = false := by
  cases hole with
  | here => exact ⟨hc, hc'⟩
  | inside => exact ⟨rfl, rfl⟩

/-- The tokens right below trees that differ in one node are the same. -/
theorem Patched.tokens_eq (h : Patched c c' t t') (hc : c.isToken = false) (hc' : c'.isToken = false) :
    t.children.filter Tree.isToken = t'.children.filter Tree.isToken := by
  rcases h with rfl | ⟨w, hw, hole⟩
  · rfl
  · cases hole with
    | here => exact absurd rfl hw
    | @inside w t t' k before after hole =>
        obtain ⟨ht, ht'⟩ := hole.isToken_eq hc hc'
        show (before ++ t :: after).filter Tree.isToken = (before ++ t' :: after).filter Tree.isToken
        simp [List.filter_append, ht, ht']

/-- What differs is no wider than the tree around it. -/
theorem Hole.width_le (hole : Hole c c' w t t') : c.width ≤ t.width ∧ c'.width ≤ t'.width := by
  induction hole with
  | here => exact ⟨Nat.le_refl _, Nat.le_refl _⟩
  | inside k before after _ ih =>
      constructor
      · refine Nat.le_trans ih.1 ?_
        exact width_le_widthAll (List.mem_append_right _ List.mem_cons_self)
      · refine Nat.le_trans ih.2 ?_
        exact width_le_widthAll (List.mem_append_right _ List.mem_cons_self)

/-- What stands in the place makes the tree wider if it is wider itself. -/
theorem Hole.width_mono (hole : Hole c c' w t t') (h : c.width ≤ c'.width) : t.width ≤ t'.width := by
  induction hole with
  | here => exact h
  | inside k before after _ ih =>
      simp only [width, widthAll_append, widthAll]
      omega

theorem identText?_eq (s : Site) : s.identText? =
    ((s.tree.children.filter Tree.isToken).find? (·.kind == .ident)).map Tree.text := by
  rw [← map_tree_children, List.filter_map, List.find?_map, Option.map_map]
  rfl

/-- Nodes with the same tokens right below them have names together. -/
theorem named_of_tokens {s s' : Site} (h : s.Named) (hnode : s'.isNode = true)
    (htokens : s.tree.children.filter Tree.isToken = s'.tree.children.filter Tree.isToken) :
    s'.Named := by
  obtain ⟨-, token, hmem, hleaf, hwidth⟩ := h
  have hfilter : token ∈ s.tree.children.filter Tree.isToken :=
    List.mem_filter.2 ⟨hmem, by simpa [Tree.isNode] using hleaf⟩
  rw [htokens] at hfilter
  exact ⟨hnode, token, (List.mem_filter.1 hfilter).1, hleaf, hwidth⟩

/-- What holds of all nodes of a tree holds of the node in the place where another one may stand. -/
theorem Hole.everyNode {P : Kind → List Tree → Prop} (hole : Hole c c' w t t')
    (h : t.EveryNode P) : c.EveryNode P := by
  induction hole with
  | here => exact h
  | inside k before after _ ih => exact ih (everyNodeAmong_append.1 h.2).2.1

end Site

/-! ## Counterparts -/

namespace Site

/-- Trees of one kind.  A token is like itself only. -/
structure Like (t t' : Tree) : Prop where
  kind_eq : t.kind = t'.kind
  isToken_eq : t.isToken = t'.isToken
  eq_of_isToken : t.isToken = true → t = t'

theorem Patched.like {c c' t t' : Tree} (h : Patched c c' t t') : Like t t' :=
  ⟨h.kind_eq, h.isToken_eq, h.eq_of_isToken⟩

/-- Sites with the same tree are types with the same text. -/
theorem typeText_eq_of_tree {s s' : Site} (hpath : s.path = s'.path) (htree : s.tree = s'.tree) :
    s.typeText = s'.typeText := by
  have halike := sites_alike.1 s.tree s.origin s'.origin s.start s'.start s.above s'.above hpath
  have hwords := filter_matched (p := fun t => !t.isTrivia) (q := fun t => !t.isTrivia)
    (fun a b h => by rw [Site.isTrivia, Site.isTrivia, h.2])
    (filter_matched (p := Site.isToken) (q := Site.isToken)
      (fun a b h => by rw [Site.isToken, Site.isToken, h.2]) halike)
  have htexts := map_list_eq_of_matched (f := Site.text) (g := Site.text)
    (fun a b h => congrArg Tree.text h.2) hwords
  unfold typeText subtokens subtree
  rw [htexts, htree]

end Site

/-- A type has the same tree, if the trees differ in a place that no type contains. -/
theorem Document.eq_of_type {version : Nat} {text : String} {s : Site} {c c' t' : Tree}
    (hclean : (Document.ofText version text).errors = [])
    (hs : s ∈ (Document.ofText version text).root.subtree) (htype : s.kind = .type)
    (hc : ¬ c.EveryNode fun k _ => Parse.isTypePart k = true) (h : Patched c c' s.tree t') :
    s.tree = t' := by
  rcases h with heq | ⟨v, hv, hbelow⟩
  · exact heq
  · have hcontained : s.tree.EveryNode Parse.Contained :=
      everyNode_of_mem.1 _ _ _ _ (parse_contained hclean) s hs
    obtain ⟨tree, start, above, origin⟩ := s
    cases hbelow with
    | here => exact absurd rfl hv
    | inside k before after hrest =>
        obtain rfl : k = .type := htype
        exact absurd (hrest.everyNode (everyNodeAmong_append.1 hcontained.1).2.1) hc

/-- What is known of an edit in which no way to a counterpart leads out. -/
structure Altering (version : Nat) (text : String) (d' : Document) (out : List Nat → Prop) :
    Prop where
  clean : (Document.ofText version text).errors = []
  like : ∀ {s s'}, Beside out (Document.ofText version text).root d'.root s s' → Like s.tree s'.tree
  type_eq : ∀ {s s'}, Beside out (Document.ofText version text).root d'.root s s' →
    s.kind = .type → s.tree = s'.tree
  named : ∀ {s s'}, Beside out (Document.ofText version text).root d'.root s s' →
    s.isType = true → s'.Named
  solid : ∀ {s s'}, Beside out (Document.ofText version text).root d'.root s s' →
    0 < s.tree.width → 0 < s'.tree.width
  declared : List.Forall₂ (Beside out (Document.ofText version text).root d'.root)
    ((Document.ofText version text).root.subnodes.filter (·.kind.isTypeDeclaration))
    (d'.root.subnodes.filter (·.kind.isTypeDeclaration))

namespace Altering

variable {version : Nat} {text : String} {d' : Document} {out : List Nat → Prop}
  (A : Altering version text d' out)

include A

/-- The matching of an edit, given what happens to the children of the nodes that are exempt. -/
def matching (catalog : Catalog) (exempt : Site → Prop) (fresh : String → Bool)
    (exempt_cases : ∀ {s}, exempt s →
      s.kind = .enumMemberDeclaration ∨ s.kind = .switchSection ∨ s.kind = .enumDeclaration)
    (ident_eq : ∀ {s s'}, Beside out (Document.ofText version text).root d'.root s s' → exempt s →
      s.identText? = s'.identText?)
    (children : ∀ {s s'}, Beside out (Document.ofText version text).root d'.root s s' → ¬ exempt s →
      List.Forall₂ (Beside out (Document.ofText version text).root d'.root)
        (s.children.filter isSignificant) (s'.children.filter isSignificant))
    (grown : ∀ {s s'}, Beside out (Document.ofText version text).root d'.root s s' → exempt s →
      s.kind = .enumDeclaration →
      List.Forall₂ (Beside out (Document.ofText version text).root d'.root)
        (s.enumMembers.filter (isKnown fresh)) (s'.enumMembers.filter (isKnown fresh)))
    (unused : ∀ {s s' name}, Beside out (Document.ofText version text).root d'.root s s' →
      s.kind = .identifierName → s.identText? = some name → fresh name = false) :
    Matching (.ofDocument (.ofText version text) catalog) (.ofDocument d' catalog) where
  rel := Beside out (Document.ofText version text).root d'.root
  exempt := exempt
  fresh := fresh
  exempt_cases := exempt_cases
  catalog_eq := rfl
  types_eq := rfl
  types_eq' := rfl
  mem h := ⟨h.mem, h.mem'⟩
  kind_eq h := (A.like h).kind_eq
  isNode_eq h := congrArg not (A.like h).isToken_eq
  text_eq h htoken := congrArg Tree.text ((A.like h).eq_of_isToken htoken)
  typeText_eq h htype := typeText_eq_of_tree h.path_eq (A.type_eq h htype)
  ident_eq := ident_eq
  children := children
  grown := grown
  unused := unused
  parent := by
    intro s s' p h hp _ _
    have hhead := head_matched h.above
    rw [properAncestors_head?, properAncestors_head?] at hhead
    exact exists_of_rel hhead hp
  parent' := by
    intro s s' p' h hp' _ _
    have hhead := head_matched h.symm.above
    rw [properAncestors_head?, properAncestors_head?] at hhead
    obtain ⟨p, hp, hrel⟩ := exists_of_rel hhead hp'
    exact ⟨p, hp, hrel.symm⟩
  around := by
    intro s s' h
    exact filter_matched (fun p p' hp => by rw [Site.kind, Site.kind, (A.like hp).kind_eq])
      (.cons h h.above)
  declared := A.declared
  same_eq := by
    intro a a' b b' ha hb
    rw [Bool.eq_iff_iff, same_iff ha.mem hb.mem, same_iff ha.mem' hb.mem']
    constructor
    · rintro rfl
      exact eq_of_path_eq.1 _ _ _ _ a' ha.mem' b' hb.mem' (ha.path_eq.symm.trans hb.path_eq)
    · rintro rfl
      exact eq_of_path_eq.1 _ _ _ _ a ha.mem b hb.mem (ha.path_eq.trans hb.path_eq.symm)
  span_iff := by
    intro a a' b b' ha hb haType hbType
    have hnamed {s s' : Site} (h : Beside out (Document.ofText version text).root d'.root s s')
        (htype : s.isType = true) : s.Named ∧ s'.Named := by
      obtain ⟨hsNode, hsType⟩ := Bool.and_eq_true_iff.1 htype
      exact ⟨Document.named_type A.clean h.mem hsNode hsType, A.named h htype⟩
    have hspan {s r : Site} (h : s = r) : s.span = r.span := by rw [h]
    constructor
    · intro h
      have heq := Named.eq_of_span_eq ha.mem hb.mem (hnamed ha haType).1 (hnamed hb hbType).1 h
      refine hspan (eq_of_path_eq.1 _ _ _ _ a' ha.mem' b' hb.mem' ?_)
      rw [← ha.path_eq, ← hb.path_eq, heq]
    · intro h
      have heq := Named.eq_of_span_eq ha.mem' hb.mem' (hnamed ha haType).2 (hnamed hb hbType).2 h
      refine hspan (eq_of_path_eq.1 _ _ _ _ a ha.mem b hb.mem ?_)
      rw [ha.path_eq, hb.path_eq, heq]
  solid := by
    intro s s' h hunit hend
    have hwidth := Document.width_pos A.clean h.mem hunit hend
    exact ⟨hwidth, A.solid h hwidth⟩
  order := by
    intro a a' b b' ha hb hwidth hwidth'
    rw [stop_le_start_iff ha.mem hb.mem hwidth.1 hwidth'.1,
      stop_le_start_iff ha.mem' hb.mem' hwidth.2 hwidth'.2, route, route, route, route, ha.path_eq,
      hb.path_eq]

end Altering

end CodeMend
