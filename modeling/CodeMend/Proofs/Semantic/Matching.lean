import Mathlib.Data.Option.Basic
import CodeMend.Proofs.Paired
import CodeMend.Proofs.Syntax.Covering
import CodeMend.Semantic.Model
import CodeMend.Trivia.Ownership

/-!
# Names in corresponding trees

An edit leaves most of a tree as it was, at other offsets.  A `Matching` of two models says which
sites correspond: they have the same kind, their significant children correspond, and so do the nodes
and the declared types around them; and of two sites the same one comes first in both trees.

Then everything that a name is looked up in corresponds (`types_matched`, `variableIn_matched`), and
a name refers to corresponding symbols in both trees if it does so among the local variables
(`symbol_matched`).
-/

namespace CodeMend

/-! ## Matchings -/

/-- Is it a node that declares a type? -/
def Site.isType (s : Site) : Bool := s.isNode && s.kind.isTypeDeclaration

/-- Has a member of an enumeration none of the names, or no name at all? -/
def Site.isKnown (fresh : String → Bool) (s : Site) : Bool := s.identText?.all fun name => !fresh name

/-- Which sites of the trees of two models correspond.  Some members of enumerations, some sections
of a switch and some enumerations may have children without a counterpart (`exempt`).  If those of an
enumeration are members, they have names that are used nowhere (`fresh`). -/
structure Matching (m m' : Model) where
  rel : Site → Site → Prop
  exempt : Site → Prop
  fresh : String → Bool
  exempt_cases : ∀ {s}, exempt s →
    s.kind = .enumMemberDeclaration ∨ s.kind = .switchSection ∨ s.kind = .enumDeclaration
  catalog_eq : m.catalog = m'.catalog
  types_eq : m.types = m.root.subnodes.filterMap Site.declaredType?
  types_eq' : m'.types = m'.root.subnodes.filterMap Site.declaredType?
  mem : ∀ {s s'}, rel s s' → s ∈ m.root.subtree ∧ s' ∈ m'.root.subtree
  kind_eq : ∀ {s s'}, rel s s' → s.kind = s'.kind
  isNode_eq : ∀ {s s'}, rel s s' → s.isNode = s'.isNode
  text_eq : ∀ {s s'}, rel s s' → s.isToken = true → s.text = s'.text
  typeText_eq : ∀ {s s'}, rel s s' → s.kind = .type → s.typeText = s'.typeText
  ident_eq : ∀ {s s'}, rel s s' → exempt s → s.identText? = s'.identText?
  children : ∀ {s s'}, rel s s' → ¬ exempt s →
    List.Forall₂ rel (s.children.filter Site.isSignificant) (s'.children.filter Site.isSignificant)
  grown : ∀ {s s'}, rel s s' → exempt s → s.kind = .enumDeclaration →
    List.Forall₂ rel (s.enumMembers.filter (Site.isKnown fresh))
      (s'.enumMembers.filter (Site.isKnown fresh))
  unused : ∀ {s s' name}, rel s s' → s.kind = .identifierName → s.identText? = some name →
    fresh name = false
  parent : ∀ {s s' p}, rel s s' → s.parent? = some p → p.kind ≠ .block → p.kind ≠ .switchSection →
    ∃ p', s'.parent? = some p' ∧ rel p p'
  parent' : ∀ {s s' p'}, rel s s' → s'.parent? = some p' → p'.kind ≠ .block →
    p'.kind ≠ .switchSection → ∃ p, s.parent? = some p ∧ rel p p'
  around : ∀ {s s'}, rel s s' → List.Forall₂ rel (s.ancestors.filter (·.kind.isTypeDeclaration))
    (s'.ancestors.filter (·.kind.isTypeDeclaration))
  declared : List.Forall₂ rel (m.root.subnodes.filter (·.kind.isTypeDeclaration))
    (m'.root.subnodes.filter (·.kind.isTypeDeclaration))
  same_eq : ∀ {a a' b b'}, rel a a' → rel b b' → a.same b = a'.same b'
  span_iff : ∀ {a a' b b'}, rel a a' → rel b b' → a.isType = true → b.isType = true →
    (a.span = b.span ↔ a'.span = b'.span)
  solid : ∀ {s s'}, rel s s' → s.kind ≠ .compilationUnit → s.kind ≠ .endOfFile →
    0 < s.tree.width ∧ 0 < s'.tree.width
  order : ∀ {a a' b b'}, rel a a' → rel b b' → 0 < a.tree.width ∧ 0 < a'.tree.width →
    0 < b.tree.width ∧ 0 < b'.tree.width → (a.stop ≤ b.start ↔ a'.stop ≤ b'.start)

namespace Matching

open Site

variable {m m' : Model} (M : Matching m m') {s s' : Site}

/-- Declarations that correspond. -/
def Declares (isConst : Bool) (p q : Span) : Prop :=
  ∃ n n', M.rel n n' ∧ n.isNode = true ∧ p = n.span ∧ q = n'.span ∧
    (isConst = true → Model.isConstantNode n = true)

/-- Symbols that are the same, with declarations that correspond. -/
structure Matches (a b : Symbol) : Prop where
  kind : a.kind = b.kind
  name : a.name = b.name
  container : a.container = b.container
  typeName : a.typeName = b.typeName
  isStatic : a.isStatic = b.isStatic
  isConst : a.isConst = b.isConst
  declaration : Option.Rel (M.Declares a.isConst) a.declaration b.declaration

/-! ### Parts -/

/-- Children that a test picks correspond, if the test picks significant ones and cannot tell
corresponding sites apart. -/
theorem filter_children {p : Site → Bool} (hsig : ∀ r, p r = true → r.isSignificant = true)
    (hp : ∀ {r r'}, M.rel r r' → p r = p r') (h : M.rel s s') (hs : ¬ M.exempt s) :
    List.Forall₂ M.rel (s.children.filter p) (s'.children.filter p) := by
  have hfilter (s : Site) : s.children.filter p = (s.children.filter isSignificant).filter p := by
    rw [List.filter_filter]
    refine List.filter_congr fun r _ => ?_
    cases hr : p r with
    | true => rw [hsig r hr]; rfl
    | false => rfl
  rw [hfilter s, hfilter s']
  exact filter_matched (fun _ _ hr => hp hr) (M.children h hs)

/-- Every node is significant. -/
theorem isSignificant_of_isNode {r : Site} (h : r.isNode = true) : r.isSignificant = true := by
  obtain ⟨tree, start, above, origin⟩ := r
  cases tree with
  | token k text => cases h
  | node k cs => rfl

/-- A site is significant unless its kind is trivia. -/
theorem isSignificant_of_kind {r : Site} (h : r.kind.isTrivia = false) :
    r.isSignificant = true := by
  obtain ⟨tree, start, above, origin⟩ := r
  cases tree with
  | token k text =>
      show (!k.isTrivia) = true
      rw [show k.isTrivia = false from h]
      rfl
  | node k cs => rfl

/-- Corresponding sites are both tokens or both nodes. -/
theorem isToken_eq (h : M.rel s s') : s.isToken = s'.isToken := by
  have hnode := M.isNode_eq h
  simpa [isNode, Tree.isNode, isToken] using hnode

/-- Child nodes correspond. -/
theorem nodes (h : M.rel s s') (hs : ¬ M.exempt s) :
    List.Forall₂ M.rel s.nodes s'.nodes :=
  M.filter_children (fun _ => isSignificant_of_isNode) (fun hr => M.isNode_eq hr) h hs

/-- Child nodes that are picked by their kind. -/
theorem nodesBy (q : Kind → Bool) (h : M.rel s s') (hs : ¬ M.exempt s) :
    List.Forall₂ M.rel (s.nodes.filter fun n => q n.kind) (s'.nodes.filter fun n => q n.kind) :=
  filter_matched (fun _ _ hr => by rw [M.kind_eq hr]) (M.nodes h hs)

/-- The first child node of a kind corresponds. -/
theorem child (k : Kind) (h : M.rel s s') (hs : ¬ M.exempt s) :
    Option.Rel M.rel (s.child? k) (s'.child? k) :=
  find_matched (fun _ _ hr => by rw [M.kind_eq hr]) (M.nodes h hs)

/-- Tokens among the children that are picked by their kind. -/
theorem tokensBy {q : Kind → Bool} (hq : ∀ k, q k = true → k.isTrivia = false) (h : M.rel s s')
    (hs : ¬ M.exempt s) :
    List.Forall₂ M.rel (s.tokens.filter fun t => q t.kind) (s'.tokens.filter fun t => q t.kind) := by
  have hfilter (s : Site) : s.tokens.filter (fun t => q t.kind) =
      s.children.filter fun t => q t.kind && t.isToken := by
    rw [tokens, List.filter_filter]
  rw [hfilter s, hfilter s']
  refine M.filter_children (fun r hr => ?_) (fun hr => ?_) h hs
  · exact isSignificant_of_kind (hq _ (Bool.and_eq_true_iff.1 hr).1)
  · rw [M.kind_eq hr, M.isToken_eq hr]

/-- The first token of a kind corresponds, and it is of that kind. -/
theorem token {k : Kind} (hk : k.isTrivia = false) (h : M.rel s s') (hs : ¬ M.exempt s) :
    Option.Rel (fun t t' => M.rel t t' ∧ t.isToken = true ∧ t.kind = k) (s.token? k)
      (s'.token? k) := by
  have hmem : ∀ t ∈ s.tokens.filter (fun t => t.kind == k), t.isToken = true ∧ t.kind = k := by
    intro t ht
    obtain ⟨htokens, hkind⟩ := List.mem_filter.1 ht
    exact ⟨(List.mem_filter.1 htokens).2, beq_iff_eq.1 hkind⟩
  have htokens := M.tokensBy (q := (· == k)) (fun l hl => by rw [beq_iff_eq.1 hl]; exact hk) h hs
  unfold token?
  rw [← List.head?_filter, ← List.head?_filter]
  refine head_matched (((List.forall₂_and_left _ _).2 ⟨hmem, htokens⟩).imp fun _ _ ht => ?_)
  exact ⟨ht.2, ht.1⟩

/-- Corresponding nodes have the same name. -/
theorem identText_eq (h : M.rel s s') : s.identText? = s'.identText? := by
  by_cases hs : M.exempt s
  · exact M.ident_eq h hs
  · exact map_eq_of_matched (M.token (k := .ident) rfl h hs) fun t t' _ ht => M.text_eq ht.1 ht.2.1

/-- Both have a token of a kind or neither. -/
theorem hasToken_eq {k : Kind} (hk : k.isTrivia = false) (h : M.rel s s')
    (hs : ¬ M.exempt s) : s.hasToken k = s'.hasToken k :=
  isSome_eq_of_matched (M.token hk h hs)

/-- Modifiers are no trivia. -/
theorem isTrivia_of_isModifier (k : Kind) (h : k.isModifier = true) : k.isTrivia = false := by
  unfold Kind.isModifier at h
  split at h <;> first | rfl | cases h

/-- Both have a modifier or neither. -/
theorem hasModifier_eq (k : Kind) (h : M.rel s s') (hs : ¬ M.exempt s) :
    s.hasModifier k = s'.hasModifier k :=
  any_list_eq_of_matched (fun _ _ hr => by rw [M.kind_eq hr])
    (M.tokensBy (q := Kind.isModifier) isTrivia_of_isModifier h hs)

/-- Corresponding declarations name the same type. -/
theorem typeName_eq (h : M.rel s s') (hs : ¬ M.exempt s) :
    s.typeName? = s'.typeName? := by
  refine map_eq_of_matched (M.child .type h hs) fun t t' ht hrel => ?_
  have hkind := List.find?_some ht
  exact M.typeText_eq hrel (beq_iff_eq.1 hkind)

/-! ### Variables -/

/-- Only members and sections and enumerations may be exempt. -/
theorem not_exempt {k : Kind} (hk : s.kind = k) (hmember : k ≠ .enumMemberDeclaration)
    (hsection : k ≠ .switchSection) (henum : k ≠ .enumDeclaration) : ¬ M.exempt s := by
  intro h
  rcases M.exempt_cases h with hs | hs | hs
  · exact hmember (hk.symm.trans hs)
  · exact hsection (hk.symm.trans hs)
  · exact henum (hk.symm.trans hs)

/-- Corresponding parameters have the same text. -/
theorem parameterText_eq (h : M.rel s s') (hs : ¬ M.exempt s) :
    s.parameterText? = s'.parameterText? := by
  have htokens := M.tokensBy (q := (· == .ident)) (fun l hl => by rw [beq_iff_eq.1 hl]; rfl) h hs
  refine map_eq_of_matched (last_matched htokens) fun t t' ht hrel => ?_
  have hmem := (List.mem_filter.1 (List.mem_of_getLast? ht)).1
  exact M.text_eq hrel (List.mem_filter.1 hmem).2

/-- A symbol without a constant value that a node declares. -/
theorem matches_of_node {a b : Symbol} (h : M.rel s s') (hnode : s.isNode = true)
    (heq : b = { a with declaration := some s'.span }) (ha : a.declaration = some s.span)
    (hconst : a.isConst = true → Model.isConstantNode s = true) : M.Matches a b := by
  subst heq
  refine ⟨rfl, rfl, rfl, rfl, rfl, rfl, ?_⟩
  rw [ha]
  exact .some ⟨s, s', h, hnode, rfl, rfl, hconst⟩

/-- Corresponding parameters declare corresponding symbols. -/
theorem parameterSymbol_matched (h : M.rel s s') (hnode : s.isNode = true)
    (hs : ¬ M.exempt s) :
    Option.Rel M.Matches s.parameterSymbol? s'.parameterSymbol? := by
  unfold parameterSymbol?
  rw [← M.parameterText_eq h hs, ← M.typeName_eq h hs]
  cases s.parameterText? with
  | none => exact .none
  | some name => exact .some (M.matches_of_node h hnode rfl rfl nofun)

/-- The node above, if it is of a kind that the edit does not touch. -/
theorem parentOf {k : Kind} (hblock : k ≠ .block) (hsection : k ≠ .switchSection) (h : M.rel s s') :
    Option.Rel (fun p p' => M.rel p p' ∧ p.kind = k) (s.parent?.filter (·.kind == k))
      (s'.parent?.filter (·.kind == k)) := by
  cases hp : s.parent?.filter (·.kind == k) with
  | some p =>
      obtain ⟨hparent, hkind⟩ := Option.filter_eq_some_iff.1 hp
      have hkind := beq_iff_eq.1 hkind
      obtain ⟨p', hparent', hrel⟩ := M.parent h hparent (by rwa [hkind]) (by rwa [hkind])
      have hkind' : (p'.kind == k) = true := by rw [← M.kind_eq hrel, hkind, beq_self_eq_true]
      rw [Option.filter_eq_some_iff.2 ⟨hparent', hkind'⟩]
      exact .some ⟨hrel, hkind⟩
  | none =>
      cases hp' : s'.parent?.filter (·.kind == k) with
      | none => exact .none
      | some p' =>
          obtain ⟨hparent', hkind'⟩ := Option.filter_eq_some_iff.1 hp'
          have hkind' := beq_iff_eq.1 hkind'
          obtain ⟨p, hparent, hrel⟩ := M.parent' h hparent' (by rwa [hkind']) (by rwa [hkind'])
          have hkind : (p.kind == k) = true := by rw [M.kind_eq hrel, hkind', beq_self_eq_true]
          rw [Option.filter_eq_some_iff.2 ⟨hparent, hkind⟩] at hp
          cases hp

/-- A test that asks for a kind first may be made on the site kept by its kind. -/
theorem any_filter_eq {q : Site → Bool} {k : Kind} (p : Option Site) :
    (p.any fun p => p.kind == k && q p) = (p.filter (·.kind == k)).any q := by
  cases p with
  | none => rfl
  | some p => cases hk : p.kind == k <;> simp [hk]

/-- Variables stand in a constant declaration in both trees or in neither. -/
theorem isConstLocal_eq {declaration declaration' : Site} (h : M.rel declaration declaration') :
    (declaration.parent?.any fun p => p.kind == .localDeclarationStatement && p.isConstLocal) =
      declaration'.parent?.any fun p => p.kind == .localDeclarationStatement && p.isConstLocal := by
  rw [any_filter_eq, any_filter_eq]
  refine any_eq_of_matched (M.parentOf nofun nofun h) fun p p' hp => ?_
  exact M.hasToken_eq rfl hp.1 (M.not_exempt hp.2 nofun nofun nofun)

/-- Corresponding declarators of corresponding declarations declare corresponding variables. -/
theorem localSymbol_matched {declaration declaration' : Site} (h : M.rel declaration declaration')
    (hkind : declaration.kind = .variableDeclaration) (hd : M.rel s s')
    (hnode : s.isNode = true) (hdeclarator : s.kind = .variableDeclarator) :
    Option.Rel M.Matches (declaration.localSymbol? s) (declaration'.localSymbol? s') := by
  have htype := M.typeName_eq h (M.not_exempt hkind nofun nofun nofun)
  unfold localSymbol?
  rw [← M.identText_eq hd, ← htype, ← M.isConstLocal_eq h]
  cases s.identText? with
  | none => exact .none
  | some name =>
      exact .some (M.matches_of_node hd hnode rfl rfl fun _ => by
        simp [Model.isConstantNode, hdeclarator])

/-- Child nodes of one kind, with what is known of them. -/
theorem childrenOf_matched (k : Kind) (h : M.rel s s') (hs : ¬ M.exempt s) :
    List.Forall₂ (fun d d' => M.rel d d' ∧ d.isNode = true ∧ d.kind = k) (s.childrenOf k)
      (s'.childrenOf k) := by
  have hmem : ∀ d ∈ s.childrenOf k, d.isNode = true ∧ d.kind = k := by
    intro d hd
    obtain ⟨hnodes, hkind⟩ := List.mem_filter.1 hd
    exact ⟨(List.mem_filter.1 hnodes).2, beq_iff_eq.1 hkind⟩
  have hand := (List.forall₂_and_left _ _).2 ⟨hmem, M.nodesBy (· == k) h hs⟩
  exact hand.imp fun _ _ hd => ⟨hd.2, hd.1⟩

/-- The first child node of a kind corresponds, and it is a node of that kind. -/
theorem child_matched (k : Kind) (h : M.rel s s') (hs : ¬ M.exempt s) :
    Option.Rel (fun d d' => M.rel d d' ∧ d.isNode = true ∧ d.kind = k) (s.child? k)
      (s'.child? k) := by
  unfold child?
  rw [← List.head?_filter, ← List.head?_filter]
  exact head_matched (M.childrenOf_matched k h hs)

/-- A node comes before a name in both trees or in neither. -/
theorem before_iff {k : Kind} {d d' : Site} (hd : M.rel d d') (hkind : d.kind = k)
    (hunit : k ≠ .compilationUnit) (hend : k ≠ .endOfFile) (hs : M.rel s s')
    (hwidth : 0 < s.tree.width ∧ 0 < s'.tree.width) : d.stop ≤ s.start ↔ d'.stop ≤ s'.start :=
  M.order hd hs (M.solid hd (by rwa [hkind]) (by rwa [hkind])) hwidth

/-- A node starts at or before its first child of a kind. -/
theorem start_le_of_child? {k : Kind} {d : Site} (h : s.child? k = some d) : s.start ≤ d.start := by
  have hchild := (List.mem_filter.1 (List.mem_of_find?_eq_some h)).1
  exact (subtree_within.1 _ _ _ _ d (mem_subtree_of_mem_children hchild)).1

/-- What has a child with text that ends at a place starts before that place. -/
theorem starts_before {k : Kind} {d : Site} (h : d ∈ s.childrenOf k) (hwidth : 0 < d.tree.width)
    {offset : Nat} (hstop : d.stop ≤ offset) : s.start < offset := by
  have hchild := (List.mem_filter.1 (List.mem_filter.1 h).1).1
  have hstart := (subtree_within.1 _ _ _ _ d (mem_subtree_of_mem_children hchild)).1
  rw [stop_eq] at hstop
  omega

/-- The declarator of a name corresponds, and what declares something before a place starts before
it. -/
theorem declaredBefore_matched {declaration declaration' : Site}
    (h : M.rel declaration declaration') (hkind : declaration.kind = .variableDeclaration)
    (hs : M.rel s s') (hwidth : 0 < s.tree.width ∧ 0 < s'.tree.width) (name : String) :
    Option.Rel (fun a b => M.Matches a b ∧ declaration.start < s.start ∧ declaration'.start < s'.start)
      (declaration.declaredBefore? name s.start) (declaration'.declaredBefore? name s'.start) := by
  have hdeclarators := M.childrenOf_matched .variableDeclarator h (M.not_exempt hkind nofun nofun nofun)
  have hfit : ∀ d d', (M.rel d d' ∧ d.isNode = true ∧ d.kind = .variableDeclarator) →
      (decide (d.stop ≤ s.start) && d.identText? == some name) =
        (decide (d'.stop ≤ s'.start) && d'.identText? == some name) := by
    intro d d' hd
    rw [M.identText_eq hd.1, decide_eq_decide.2 (M.before_iff hd.1 hd.2.2 nofun nofun hs hwidth)]
  have hfound := find_matched hfit hdeclarators
  unfold declaredBefore? declarators
  generalize hd : (declaration.childrenOf .variableDeclarator).find? _ = found at hfound ⊢
  generalize hd' : (declaration'.childrenOf .variableDeclarator).find? _ = found' at hfound ⊢
  cases hfound with
  | none => exact .none
  | @some d d' hrel =>
      have hpos := M.solid hrel.1 (by rw [hrel.2.2]; nofun) (by rw [hrel.2.2]; nofun)
      have hstop := List.find?_some hd
      have hstop' := List.find?_some hd'
      refine map_rel_and (M.localSymbol_matched h hkind hrel.1 hrel.2.1 hrel.2.2) ⟨?_, ?_⟩
      · exact starts_before (List.mem_of_find?_eq_some hd) hpos.1
          (of_decide_eq_true (Bool.and_eq_true_iff.1 hstop).1)
      · exact starts_before (List.mem_of_find?_eq_some hd') hpos.2
          (of_decide_eq_true (Bool.and_eq_true_iff.1 hstop').1)

/-- What a statement declares before a name corresponds, and in both trees it starts before the
name. -/
theorem declaredIn_matched (h : M.rel s s') (hs : ¬ M.exempt s) {n n' : Site} (hn : M.rel n n')
    (hwidth : 0 < n.tree.width ∧ 0 < n'.tree.width) (name : String) :
    Option.Rel (fun a b => M.Matches a b ∧ s.start < n.start ∧ s'.start < n'.start)
      (s.declaration?.bind (·.declaredBefore? name n.start))
      (s'.declaration?.bind (·.declaredBefore? name n'.start)) := by
  have hchild := M.child_matched .variableDeclaration h hs
  unfold declaration?
  generalize hd : s.child? .variableDeclaration = found at hchild ⊢
  generalize hd' : s'.child? .variableDeclaration = found' at hchild ⊢
  cases hchild with
  | none => exact .none
  | @some d d' hrel =>
      refine rel_imp (M.declaredBefore_matched hrel.1 hrel.2.2 hn hwidth name) fun a b hab => ?_
      have hstart := start_le_of_child? hd
      have hstart' := start_le_of_child? hd'
      exact ⟨hab.1, by omega, by omega⟩

/-- The statements of a scope declare variables that correspond. -/
theorem localAmong_matched {statements statements' : List Site}
    (h : List.Forall₂ M.rel statements statements') (hs : M.rel s s')
    (hwidth : 0 < s.tree.width ∧ 0 < s'.tree.width) (name : String) :
    Option.Rel M.Matches (localAmong? statements name s.start)
      (localAmong? statements' name s'.start) := by
  refine findSome_filter_matched (fun a b hab => ?_) h
  by_cases hkind : a.kind = .localDeclarationStatement
  · right
    have hkind' : b.kind = .localDeclarationStatement := (M.kind_eq hab).symm.trans hkind
    refine rel_imp (M.declaredIn_matched hab (M.not_exempt hkind nofun nofun nofun) hs hwidth name)
      fun x y hxy => ⟨hxy.1, ?_, ?_⟩
    · simp [hkind, hxy.2.1]
    · simp [hkind', hxy.2.2]
  · left
    have hkind' : b.kind ≠ .localDeclarationStatement := by rwa [← M.kind_eq hab]
    simp [hkind, hkind']

/-- A node with a name declares corresponding variables. -/
theorem namedVariable_matched (h : M.rel s s') (hs : ¬ M.exempt s) (hnode : s.isNode = true)
    (name : String) :
    Option.Rel M.Matches (s.namedVariable? name) (s'.namedVariable? name) := by
  unfold namedVariable?
  rw [← M.identText_eq h, ← M.typeName_eq h hs]
  cases s.identText?.filter (· == name) with
  | none => exact .none
  | some _ => exact .some (M.matches_of_node h hnode rfl rfl nofun)

/-- The parameter of a name among corresponding ones corresponds. -/
theorem parameterAmong_matched {ps ps' : List Site} (name : String)
    (h : List.Forall₂ (fun p p' => M.rel p p' ∧ p.isNode = true ∧ p.kind = .parameter) ps ps') :
    Option.Rel M.Matches (parameterAmong? ps name) (parameterAmong? ps' name) := by
  have hexempt {p p' : Site} (hp : M.rel p p' ∧ p.isNode = true ∧ p.kind = .parameter) :
      ¬ M.exempt p := M.not_exempt hp.2.2 nofun nofun nofun
  refine bind_matched (find_matched (fun p p' hp => ?_) h) fun p p' hp => ?_
  · rw [M.parameterText_eq hp.1 (hexempt hp)]
  · exact M.parameterSymbol_matched hp.1 hp.2.1 (hexempt hp)

/-- The parameters of corresponding lambdas correspond, with or without parentheses. -/
theorem lambdaParameters_matched (h : M.rel s s') (hs : ¬ M.exempt s) :
    List.Forall₂ (fun p p' => M.rel p p' ∧ p.isNode = true ∧ p.kind = .parameter)
      s.lambdaParameters s'.lambdaParameters := by
  have hlist := M.child_matched .parameterList h hs
  unfold lambdaParameters parameterList?
  generalize s.child? .parameterList = list at hlist ⊢
  generalize s'.child? .parameterList = list' at hlist ⊢
  cases hlist with
  | none =>
      have hparameter := M.child_matched .parameter h hs
      dsimp only
      generalize s.child? .parameter = single at hparameter ⊢
      generalize s'.child? .parameter = single' at hparameter ⊢
      cases hparameter with
      | none => exact .nil
      | some hp => exact .cons hp .nil
  | some hl => exact M.childrenOf_matched .parameter hl.1 (M.not_exempt hl.2.2 nofun nofun nofun)

/-- The statements right below corresponding sites correspond. -/
theorem statements_matched (h : M.rel s s') (hs : ¬ M.exempt s) :
    List.Forall₂ M.rel s.statements s'.statements := M.nodesBy Kind.isStatement h hs

/-- The scope that the sections of a switch share declares variables that correspond. -/
theorem sharedLocal_matched {scope scope' : Site} (h : M.rel scope scope')
    (hsections : ∀ p, scope.parent? = some p → ∀ t ∈ p.sections, ¬ M.exempt t)
    (hs : M.rel s s') (hwidth : 0 < s.tree.width ∧ 0 < s'.tree.width) (name : String) :
    Option.Rel M.Matches
      (match scope.parent? with
        | some p => if p.kind == .switchStatement then
            localAmong? (p.sections.flatMap statements) name s.start else none
        | none => none)
      (match scope'.parent? with
        | some p => if p.kind == .switchStatement then
            localAmong? (p.sections.flatMap statements) name s'.start else none
        | none => none) := by
  have hfilter (p : Option Site) (offset : Nat) :
      (match p with
        | some p => if p.kind == .switchStatement then
            localAmong? (p.sections.flatMap statements) name offset else none
        | none => none) =
      (p.filter (·.kind == .switchStatement)).bind fun p =>
        localAmong? (p.sections.flatMap statements) name offset := by
    cases p with
    | none => rfl
    | some p => cases hk : p.kind == .switchStatement <;> simp [Option.filter, hk]
  rw [hfilter, hfilter]
  have hparent := M.parentOf (k := .switchStatement) nofun nofun h
  generalize hp : scope.parent?.filter (·.kind == .switchStatement) = p at hparent ⊢
  generalize scope'.parent?.filter (·.kind == .switchStatement) = p' at hparent ⊢
  cases hparent with
  | none => exact .none
  | @some p p' hrel =>
      have hexempt := hsections p (Option.filter_eq_some_iff.1 hp).1
      have hmatched := (List.forall₂_and_left _ _).2 ⟨hexempt,
        M.childrenOf_matched .switchSection hrel.1 (M.not_exempt hrel.2 nofun nofun nofun)⟩
      have hstatements := List.rel_flatMap hmatched fun t t' ht =>
        M.statements_matched ht.2.1 ht.1
      exact M.localAmong_matched hstatements hs hwidth name

/-- One scope declares variables that correspond. -/
theorem variableIn_matched {scope scope' : Site} (h : M.rel scope scope')
    (hnode : scope.isNode = true)
    (hsections : ∀ p, scope.parent? = some p → ∀ t ∈ p.sections, ¬ M.exempt t)
    (hs : M.rel s s') (hwidth : 0 < s.tree.width ∧ 0 < s'.tree.width) (name : String) :
    Option.Rel M.Matches (scope.variableIn? name s.start) (scope'.variableIn? name s'.start) := by
  unfold variableIn?
  rw [← M.kind_eq h]
  split
  · next hkind =>
    exact M.localAmong_matched (M.statements_matched h (M.not_exempt hkind nofun nofun nofun)) hs hwidth name
  · exact M.sharedLocal_matched h hsections hs hwidth name
  · next hkind =>
    exact rel_imp (M.declaredIn_matched h (M.not_exempt hkind nofun nofun nofun) hs hwidth name)
      fun _ _ hab => hab.1
  · next hkind =>
    exact rel_imp (M.declaredIn_matched h (M.not_exempt hkind nofun nofun nofun) hs hwidth name)
      fun _ _ hab => hab.1
  · next hkind =>
    have hexempt := M.not_exempt hkind nofun nofun nofun
    have hbehind : ((scope.token? .ident).any fun t => decide (t.stop ≤ s.start)) =
        (scope'.token? .ident).any fun t => decide (t.stop ≤ s'.start) := by
      refine any_eq_of_matched (M.token (k := .ident) rfl h hexempt) fun t t' ht => ?_
      exact decide_eq_decide.2 (M.before_iff ht.1 ht.2.2 nofun nofun hs hwidth)
    rw [hbehind]
    split
    · exact M.namedVariable_matched h hexempt hnode name
    · exact .none
  · next hkind =>
    refine bind_matched (M.child_matched .catchDeclaration h (M.not_exempt hkind nofun nofun nofun))
      fun d d' hd => ?_
    exact M.namedVariable_matched hd.1 (M.not_exempt hd.2.2 nofun nofun nofun) hd.2.1 name
  · next hkind =>
    exact M.parameterAmong_matched name
      (M.lambdaParameters_matched h (M.not_exempt hkind nofun nofun nofun))
  · exact .none

/-- Scopes that correspond, with what `variableIn_matched` asks of them. -/
def Scopes (scope scope' : Site) : Prop :=
  M.rel scope scope' ∧ scope.isNode = true ∧
    ∀ p, scope.parent? = some p → ∀ t ∈ p.sections, ¬ M.exempt t

/-- The variable seen through scopes that correspond, if what is seen beyond them does so. -/
theorem variableThrough_matched {scopes scopes' outer outer' : List Site}
    (h : List.Forall₂ M.Scopes scopes scopes') (hs : M.rel s s')
    (hwidth : 0 < s.tree.width ∧ 0 < s'.tree.width) {name : String} (houter : Option.Rel M.Matches (variableThrough? name s.start outer)
      (variableThrough? name s'.start outer')) :
    Option.Rel M.Matches (variableThrough? name s.start (scopes ++ outer))
      (variableThrough? name s'.start (scopes' ++ outer')) := by
  induction h with
  | nil => exact houter
  | @cons scope scope' scopes scopes' hscope _ ih =>
      obtain ⟨hrel, hnode, hsections⟩ := hscope
      have hkind := M.kind_eq hrel
      have hinner := M.variableIn_matched hrel hnode hsections hs hwidth name
      rw [List.cons_append, List.cons_append, variableThrough?, variableThrough?, ← hkind]
      split
      · next hmethod =>
        have hexempt : ¬ M.exempt scope := by
          intro hexempt
          rcases M.exempt_cases hexempt with hk | hk | hk <;> rw [hk] at hmethod <;> cases hmethod
        have hlist := M.child_matched .parameterList hrel hexempt
        refine M.parameterAmong_matched name ?_
        unfold parameterList?
        generalize scope.child? .parameterList = list at hlist ⊢
        generalize scope'.child? .parameterList = list' at hlist ⊢
        cases hlist with
        | none => exact .nil
        | some hl => exact M.childrenOf_matched .parameter hl.1 (M.not_exempt hl.2.2 nofun nofun nofun)
      · split
        · exact .none
        · generalize scope.variableIn? name s.start = x at hinner ⊢
          generalize scope'.variableIn? name s'.start = y at hinner ⊢
          cases hinner with
          | none => exact ih
          | some hab => exact .some hab

/-! ### Declared types -/

/-- Members that are the same, declared by nodes that correspond. -/
structure MatchesMember (a b : Member) : Prop where
  symbol : M.Matches a.symbol b.symbol
  kind : a.kind = b.kind
  arity : a.arity = b.arity

/-- Members whose names are not fresh. -/
def knows (a : Member) : Bool := !M.fresh a.symbol.name

/-- Types that are the same, with members that correspond, but for those with fresh names. -/
structure MatchesType (a b : DeclaredType) : Prop where
  kind : a.kind = b.kind
  symbol : M.Matches a.symbol b.symbol
  members : List.Forall₂ M.MatchesMember (a.members.filter M.knows) (b.members.filter M.knows)
  place : ∃ n n', M.rel n n' ∧ n.isType = true ∧
    a.symbol.declaration = some n.span ∧ b.symbol.declaration = some n'.span

/-- Keeping the first member of each name keeps corresponding ones. -/
theorem firstOfEach_matched {xs ys : List Member} (h : List.Forall₂ M.MatchesMember xs ys) :
    List.Forall₂ M.MatchesMember (Member.firstOfEach xs) (Member.firstOfEach ys) := by
  induction h with
  | nil => exact .nil
  | cons hab _ ih =>
      refine .cons hab (filter_matched (fun c d hcd => ?_) ih)
      rw [hcd.symbol.name, hab.symbol.name]

/-- Corresponding members both have fresh names or neither does. -/
theorem knows_eq {a b : Member} (h : M.MatchesMember a b) : M.knows a = M.knows b := by
  rw [knows, knows, h.symbol.name]

/-- Members with fresh names are not among the first of each other name. -/
theorem firstOfEach_knows (xs : List Member) :
    (Member.firstOfEach xs).filter M.knows = Member.firstOfEach (xs.filter M.knows) := by
  induction xs with
  | nil => rfl
  | cons a xs ih =>
      rw [Member.firstOfEach]
      cases ha : M.knows a with
      | true =>
          rw [List.filter_cons_of_pos ha, List.filter_cons_of_pos ha, Member.firstOfEach, ← ih,
            List.filter_filter, List.filter_filter]
          simp only [Bool.and_comm]
      | false =>
          rw [List.filter_cons_of_neg (by simp [ha]), List.filter_cons_of_neg (by simp [ha]), ← ih,
            List.filter_filter]
          refine List.filter_congr fun b _ => ?_
          cases hb : M.knows b with
          | false => rfl
          | true =>
              have hne : b.symbol.name ≠ a.symbol.name := by
                intro hname
                rw [knows, hname] at hb
                exact Bool.noConfusion (ha.symm.trans hb)
              simp [hne]

/-- A name that is not fresh is that of corresponding members. -/
theorem member_matched {a b : DeclaredType} (h : M.MatchesType a b) {name : String}
    (hname : M.fresh name = false) : Option.Rel M.MatchesMember (a.member? name) (b.member? name) := by
  have hknown (members : List Member) :
      members.find? (·.symbol.name == name) =
        (members.filter M.knows).find? (·.symbol.name == name) := by
    rw [List.find?_filter]
    refine congrArg (List.find? · members) (funext fun e => ?_)
    cases he : e.symbol.name == name with
    | false => simp
    | true => simp [knows, beq_iff_eq.1 he, hname]
  unfold DeclaredType.member?
  rw [hknown a.members, hknown b.members]
  exact find_matched (fun _ _ hab => by rw [hab.symbol.name]) h.members

/-- Corresponding members of enumerations declare corresponding members. -/
theorem enumMember_matched (container : String) (h : M.rel s s') (hnode : s.isNode = true)
    (hkind : s.kind = .enumMemberDeclaration) :
    Option.Rel M.MatchesMember (s.enumMember? container) (s'.enumMember? container) := by
  unfold enumMember?
  rw [← M.identText_eq h]
  cases s.identText? with
  | none => exact .none
  | some name =>
      refine .some ⟨M.matches_of_node h hnode rfl rfl fun _ => ?_, M.kind_eq h, rfl⟩
      simp [Model.isConstantNode, hkind]

/-- Corresponding declarators of corresponding fields declare corresponding members. -/
theorem fieldMember_matched (container : String) {field field' declaration declaration' : Site}
    (hfield : M.rel field field') (hfieldKind : field.kind = .fieldDeclaration)
    (hdeclaration : M.rel declaration declaration')
    (hdeclarationKind : declaration.kind = .variableDeclaration)
    (h : M.rel s s') (hnode : s.isNode = true) (hkind : s.kind = .variableDeclarator) :
    Option.Rel M.MatchesMember (fieldMember? container field declaration s)
      (fieldMember? container field' declaration' s') := by
  have hexempt := M.not_exempt hfieldKind nofun nofun nofun
  have hconst : field.isConstField = field'.isConstField := M.hasModifier_eq .constKw hfield hexempt
  have hstatic : field.isStaticField = field'.isStaticField := by
    unfold isStaticField
    rw [hconst, M.hasModifier_eq .staticKw hfield hexempt]
  unfold fieldMember?
  rw [← M.identText_eq h, ← hconst, ← hstatic,
    ← M.typeName_eq hdeclaration (M.not_exempt hdeclarationKind nofun nofun nofun)]
  cases s.identText? with
  | none => exact .none
  | some name =>
      refine .some ⟨M.matches_of_node h hnode rfl rfl fun _ => ?_, M.kind_eq h, rfl⟩
      simp [Model.isConstantNode, hkind]

/-- Corresponding declarations with a name declare corresponding members. -/
theorem namedMember_matched (container : String) (kind : SymbolKind) (h : M.rel s s')
    (hnode : s.isNode = true) (hs : ¬ M.exempt s) :
    Option.Rel M.MatchesMember (s.namedMember? container kind) (s'.namedMember? container kind) := by
  have harity : s.parameterList?.map (·.parameters.length) =
      s'.parameterList?.map (·.parameters.length) := by
    refine map_eq_of_matched (M.child_matched .parameterList h hs) fun l l' _ hl => ?_
    exact (M.childrenOf_matched .parameter hl.1 (M.not_exempt hl.2.2 nofun nofun nofun)).length_eq
  unfold namedMember?
  rw [← M.identText_eq h, ← M.typeName_eq h hs, ← M.hasModifier_eq .staticKw h hs, ← harity]
  cases s.identText? with
  | none => exact .none
  | some name => exact .some ⟨M.matches_of_node h hnode rfl rfl nofun, M.kind_eq h, rfl⟩

/-- A member declaration declares members that correspond. -/
theorem declaredMembers_matched (container : String) (h : M.rel s s') (hnode : s.isNode = true) :
    List.Forall₂ M.MatchesMember (s.declaredMembers container) (s'.declaredMembers container) := by
  unfold declaredMembers
  rw [← M.kind_eq h]
  split
  · next hkind =>
    have hexempt := M.not_exempt hkind nofun nofun nofun
    have hdeclaration := M.child_matched .variableDeclaration h hexempt
    unfold declaration?
    generalize s.child? .variableDeclaration = x at hdeclaration ⊢
    generalize s'.child? .variableDeclaration = y at hdeclaration ⊢
    cases hdeclaration with
    | none => exact .nil
    | some hd =>
        have hdeclarators := M.childrenOf_matched .variableDeclarator hd.1
          (M.not_exempt hd.2.2 nofun nofun nofun)
        exact filterMap_matched (fun e e' he => M.fieldMember_matched container h hkind hd.1 hd.2.2
          he.1 he.2.1 he.2.2) hdeclarators
  · next hkind =>
    exact toList_matched (M.namedMember_matched _ _ h hnode (M.not_exempt hkind nofun nofun nofun))
  · next hkind =>
    exact toList_matched (M.namedMember_matched _ _ h hnode (M.not_exempt hkind nofun nofun nofun))
  · exact .nil

/-- A name is fresh in both trees or in neither. -/
theorem isKnown_eq (h : M.rel s s') : s.isKnown M.fresh = s'.isKnown M.fresh := by
  rw [isKnown, isKnown, M.identText_eq h]

/-- The members of an enumeration, but for those with fresh names. -/
theorem enumMembers_matched (h : M.rel s s') (hkind : s.kind = .enumDeclaration) :
    List.Forall₂ M.rel (s.enumMembers.filter (isKnown M.fresh))
      (s'.enumMembers.filter (isKnown M.fresh)) := by
  by_cases hexempt : M.exempt s
  · exact M.grown h hexempt hkind
  · exact filter_matched (fun _ _ hd => M.isKnown_eq hd)
      (M.nodesBy (· == .enumMemberDeclaration) h hexempt)

/-- The members with names that are not fresh are declared by the nodes with such names. -/
theorem enumMember_knows (container : String) (members : List Site) :
    (members.filterMap (enumMember? container)).filter M.knows =
      (members.filter (isKnown M.fresh)).filterMap (enumMember? container) := by
  induction members with
  | nil => rfl
  | cons d members ih =>
      cases hd : d.identText? with
      | none =>
          have hnone : d.enumMember? container = none := by rw [enumMember?, hd]; rfl
          rw [List.filterMap_cons_none hnone, List.filter_cons_of_pos (by simp [Site.isKnown, hd]),
            List.filterMap_cons_none hnone, ih]
      | some name =>
          obtain ⟨e, he, hname⟩ : ∃ e, d.enumMember? container = some e ∧ e.symbol.name = name := by
            rw [enumMember?, hd]
            exact ⟨_, rfl, rfl⟩
          have hknown : d.isKnown M.fresh = M.knows e := by
            rw [Site.isKnown, hd, knows, hname]
            rfl
          rw [List.filterMap_cons_some he]
          cases hfresh : M.knows e with
          | true =>
              rw [List.filter_cons_of_pos hfresh, List.filter_cons_of_pos (hknown.trans hfresh),
                List.filterMap_cons_some he, ih]
          | false =>
              rw [List.filter_cons_of_neg (by simp [hfresh]),
                List.filter_cons_of_neg (by simp [hknown, hfresh]), ih]

/-- The members that a type declares, but for those with fresh names. -/
theorem typeMembers_matched (h : M.rel s s') (htype : s.kind.isTypeDeclaration = true)
    (name : String) :
    List.Forall₂ M.MatchesMember
      ((if s.kind == .enumDeclaration then s.enumMembers.filterMap (enumMember? name)
        else s.members.flatMap (declaredMembers name)).filter M.knows)
      ((if s.kind == .enumDeclaration then s'.enumMembers.filterMap (enumMember? name)
        else s'.members.flatMap (declaredMembers name)).filter M.knows) := by
  split
  · next hkind =>
    have hmem : ∀ d ∈ s.enumMembers.filter (isKnown M.fresh),
        d.isNode = true ∧ d.kind = .enumMemberDeclaration := by
      intro d hd
      obtain ⟨hnodes, hkind⟩ := List.mem_filter.1 (List.mem_filter.1 hd).1
      exact ⟨(List.mem_filter.1 hnodes).2, beq_iff_eq.1 hkind⟩
    have hmatched := (List.forall₂_and_left _ _).2
      ⟨hmem, M.enumMembers_matched h (beq_iff_eq.1 hkind)⟩
    rw [M.enumMember_knows, M.enumMember_knows]
    exact filterMap_matched (fun e e' he => M.enumMember_matched name he.2 he.1.1 he.1.2) hmatched
  · next hkind =>
    have hexempt : ¬ M.exempt s := by
      intro hexempt
      rcases M.exempt_cases hexempt with hk | hk | hk
      · rw [hk] at htype
        cases htype
      · rw [hk] at htype
        cases htype
      · exact hkind (beq_iff_eq.2 hk)
    have hnodes : ∀ e ∈ s.members, e.isNode = true := fun e he =>
      (List.mem_filter.1 (List.mem_filter.1 he).1).2
    have hmatched := (List.forall₂_and_left _ _).2
      ⟨hnodes, M.nodesBy Kind.isMemberDeclaration h hexempt⟩
    exact filter_matched (fun _ _ hab => M.knows_eq hab)
      (List.rel_flatMap hmatched fun e e' he => M.declaredMembers_matched name he.2 he.1)

/-- An enumeration is not static, and any other type is so in both trees or in neither. -/
theorem isStatic_eq (h : M.rel s s') (htype : s.kind.isTypeDeclaration = true) :
    (!(s.kind == .enumDeclaration) && s.hasModifier .staticKw) =
      (!(s.kind == .enumDeclaration) && s'.hasModifier .staticKw) := by
  cases hkind : s.kind == .enumDeclaration with
  | true => rfl
  | false =>
      refine congrArg _ (M.hasModifier_eq .staticKw h fun hexempt => ?_)
      rcases M.exempt_cases hexempt with hk | hk | hk
      · rw [hk] at htype
        cases htype
      · rw [hk] at htype
        cases htype
      · rw [hk] at hkind
        cases hkind

/-- A node declares types that correspond. -/
theorem declaredType_matched (h : M.rel s s') (hnode : s.isNode = true)
    (htype : s.kind.isTypeDeclaration = true) :
    Option.Rel M.MatchesType s.declaredType? s'.declaredType? := by
  unfold declaredType?
  rw [← M.kind_eq h, ← M.identText_eq h]
  simp only [htype, guard_true, Option.pure_def, Option.bind_eq_bind, Option.bind_some]
  rw [← M.isStatic_eq h htype]
  cases s.identText? with
  | none => exact .none
  | some name =>
      refine .some ⟨rfl, M.matches_of_node h hnode rfl rfl (by rintro ⟨⟩), ?_, s, s', h,
        Bool.and_eq_true_iff.2 ⟨hnode, htype⟩, rfl, rfl⟩
      rw [M.firstOfEach_knows, M.firstOfEach_knows]
      exact M.firstOfEach_matched (M.typeMembers_matched h htype name)

/-- Only nodes that declare types have a declared type. -/
theorem types_of_nodes (root : Site) : root.subnodes.filterMap declaredType? =
    (root.subnodes.filter (·.kind.isTypeDeclaration)).filterMap declaredType? := by
  rw [List.filterMap_filter]
  refine List.filterMap_congr fun s _ => ?_
  cases htype : s.kind.isTypeDeclaration with
  | true => rfl
  | false =>
      unfold declaredType?
      rw [htype]
      rfl

/-- The models declare types that correspond. -/
theorem types_matched : List.Forall₂ M.MatchesType m.types m'.types := by
  rw [M.types_eq, M.types_eq', types_of_nodes, types_of_nodes]
  have hmem : ∀ s ∈ m.root.subnodes.filter (·.kind.isTypeDeclaration),
      s.isNode = true ∧ s.kind.isTypeDeclaration = true := by
    intro s hs
    obtain ⟨hsubnodes, htype⟩ := List.mem_filter.1 hs
    exact ⟨(List.mem_filter.1 hsubnodes).2, htype⟩
  have hmatched := (List.forall₂_and_left _ _).2 ⟨hmem, M.declared⟩
  exact filterMap_matched (fun s s' hs => M.declaredType_matched hs.2 hs.1.1 hs.1.2) hmatched

/-! ### Names -/

/-- A name is that of corresponding types in both models. -/
theorem declared_matched (name : String) :
    Option.Rel M.MatchesType (m.declared? name) (m'.declared? name) :=
  find_matched (fun _ _ hab => by rw [hab.symbol.name]) M.types_matched

/-- Corresponding nodes that declare types have corresponding types. -/
theorem typeAt_matched (h : M.rel s s') (htype : s.isType = true) :
    Option.Rel M.MatchesType (m.typeAt? s) (m'.typeAt? s') := by
  refine find_matched (fun a b hab => ?_) M.types_matched
  obtain ⟨n, n', hn, hnType, ha, hb⟩ := hab.place
  rw [ha, hb, Bool.eq_iff_iff, beq_iff_eq, beq_iff_eq, Option.some.injEq, Option.some.injEq]
  exact M.span_iff hn h hnType htype

/-- A type name refers to corresponding symbols, or to one of the catalog in both models. -/
theorem typeNamed_matched (name : String) :
    Option.Rel M.Matches (m.typeNamed? name) (m'.typeNamed? name) := by
  have hdeclared := M.declared_matched name
  unfold Model.typeNamed?
  generalize m.declared? name = x at hdeclared ⊢
  generalize m'.declared? name = y at hdeclared ⊢
  cases hdeclared with
  | some hab => exact .some hab.symbol
  | none =>
      rw [← M.catalog_eq]
      cases m.catalog.lookup? (Model.libraryName name) with
      | none => exact .none
      | some t => exact .some ⟨rfl, rfl, rfl, rfl, rfl, rfl, .none⟩

/-- Corresponding symbols have the same type. -/
theorem typeOf_eq {a b : Symbol} (h : M.Matches a b) : m.typeOf? a = m'.typeOf? b := by
  unfold Model.typeOf?
  rw [h.kind, h.container, h.name, h.typeName, M.catalog_eq]

/-- A name that is not fresh refers to corresponding members of corresponding symbols. -/
theorem memberOf_matched {a b : Symbol} (h : M.Matches a b) {name : String}
    (hname : M.fresh name = false) : Option.Rel M.Matches (m.memberOf? a name) (m'.memberOf? b name) := by
  have hdeclared := M.declared_matched a.name
  unfold Model.memberOf?
  rw [← h.name, ← h.typeName, ← M.catalog_eq]
  generalize m.declared? a.name = x at hdeclared ⊢
  generalize m'.declared? a.name = y at hdeclared ⊢
  cases hdeclared with
  | some hab => exact map_matched (M.member_matched hab hname) fun _ _ hcd => hcd.symbol
  | none =>
      dsimp only
      cases a.typeName with
      | none => exact .none
      | some type =>
          cases hfound : m.catalog.lookup? type with
          | none =>
              simp only [Option.bind_eq_bind, Option.bind_some, hfound]
              exact .none
          | some t =>
              cases hmethod : t.method? name with
              | none =>
                  simp only [Option.bind_eq_bind, Option.bind_some, hfound, hmethod]
                  exact .none
              | some method =>
                  simp only [Option.bind_eq_bind, Option.bind_some, hfound, hmethod]
                  exact .some ⟨rfl, rfl, rfl, rfl, rfl, rfl, .none⟩

/-- Corresponding sites have corresponding operands. -/
theorem expressions_matched (h : M.rel s s') (hs : ¬ M.exempt s) :
    List.Forall₂ M.rel s.expressions s'.expressions := M.nodesBy Kind.isExpression h hs

/-- The left operands correspond. -/
theorem left_matched (h : M.rel s s') (hs : ¬ M.exempt s) :
    Option.Rel M.rel s.left? s'.left? := head_matched (M.expressions_matched h hs)

/-- The names behind the dots are the same. -/
theorem memberName_eq (h : M.rel s s') (hs : ¬ M.exempt s) :
    s.memberName?.bind identText? = s'.memberName?.bind identText? := by
  refine eq_of_matched (bind_matched (last_matched (M.childrenOf_matched .identifierName h hs))
    fun n n' hn => ?_)
  rw [M.identText_eq hn.1]
  cases n'.identText? with
  | none => exact .none
  | some _ => exact .some rfl

/-- A dotted name is that of the receiver and the name behind the dot. -/
theorem qualified_access (hkind : s.kind = .memberAccessExpression) :
    Model.qualified? s = s.left?.bind fun receiver => (Model.qualified? receiver).bind fun space =>
      (s.memberName?.bind identText?).map fun name => space ++ "." ++ name := by
  rw [Model.qualified?]
  simp only [hkind]
  split
  · next receiver hleft =>
    rw [hleft, Option.bind_some]
    cases Model.qualified? receiver with
    | none => rfl
    | some space => cases s.memberName?.bind identText? <;> rfl
  · next hleft => rw [hleft, Option.bind_none]

/-- Corresponding sites have the same dotted names, by induction on their size, as receivers are
smaller. -/
theorem qualified_eq (h : M.rel s s') : Model.qualified? s = Model.qualified? s' := by
  induction hn : sizeOf s.tree using Nat.strongRecOn generalizing s s' with
  | ind n ih =>
      subst hn
      by_cases haccess : s.kind = .memberAccessExpression
      · have hexempt := M.not_exempt haccess nofun nofun nofun
        have hleft := M.left_matched h hexempt
        rw [qualified_access haccess, qualified_access ((M.kind_eq h).symm.trans haccess),
          ← M.memberName_eq h hexempt]
        generalize hl : s.left? = l at hleft
        generalize hl' : s'.left? = l' at hleft
        cases hleft with
        | none => rfl
        | some hr =>
            rw [Option.bind_some, Option.bind_some, ih _ (sizeOf_tree_lt_of_left? hl) hr rfl]
      · by_cases hname : s.kind = .identifierName
        · have hname' := (M.kind_eq h).symm.trans hname
          rw [Model.qualified?, Model.qualified?]
          simp only [hname, hname', M.identText_eq h]
        · rw [Model.qualified?, Model.qualified?, ← M.kind_eq h]
          split
          · contradiction
          · contradiction
          · rfl

/-- The name behind a dot is not fresh. -/
theorem unused_memberName (h : M.rel s s') (hs : ¬ M.exempt s) {name : String}
    (hname : s.memberName?.bind identText? = some name) : M.fresh name = false := by
  obtain ⟨n, hn, htext⟩ := Option.bind_eq_some_iff.1 hname
  obtain ⟨n', -, hrel, -, hkind⟩ :=
    exists_of_rel (last_matched (M.childrenOf_matched .identifierName h hs)) hn
  exact M.unused hrel hkind htext

/-- A member access refers to corresponding symbols if its receiver does. -/
theorem accessed_matched (h : M.rel s s') {name : String} (hname : M.fresh name = false)
    {x y : Option Symbol} (hxy : Option.Rel M.Matches x y) :
    Option.Rel M.Matches (m.accessed? s name x) (m'.accessed? s' name y) := by
  cases hxy with
  | none =>
      unfold Model.accessed?
      rw [M.qualified_eq h]
      cases Model.qualified? s' with
      | none => exact .none
      | some space => exact M.typeNamed_matched _
  | @some a b hab =>
      unfold Model.accessed?
      dsimp only
      rw [← hab.kind, ← M.typeOf_eq hab]
      split
      · exact M.memberOf_matched hab hname
      · cases m.typeOf? a with
        | none => exact .none
        | some type =>
            have hmember := bind_matched (M.typeNamed_matched (Model.withoutNullable type))
              fun c d hcd => M.memberOf_matched hcd hname
            exact hmember

/-- A simple name refers to corresponding symbols if it does so among the variables in scope. -/
theorem nameAt_matched (h : M.rel s s') (hkind : s.kind = .identifierName) {name : String}
    (hname : M.fresh name = false) (hvisible : Option.Rel M.Matches (s.visible? name) (s'.visible? name)) :
    Option.Rel M.Matches (m.nameAt? s name) (m'.nameAt? s' name) := by
  have htypes : List.Forall₂ M.MatchesType
      ((s.ancestors.filter (·.kind.isTypeDeclaration)).filterMap m.typeAt?)
      ((s'.ancestors.filter (·.kind.isTypeDeclaration)).filterMap m'.typeAt?) := by
    have hmem : ∀ p ∈ s.ancestors.filter (·.kind.isTypeDeclaration), p.isType = true := by
      intro p hp
      obtain ⟨habove, htype⟩ := List.mem_filter.1 hp
      refine Bool.and_eq_true_iff.2 ⟨?_, htype⟩
      rcases List.mem_cons.1 habove with rfl | habove
      · rw [hkind] at htype
        cases htype
      · exact isNode_of_mem_properAncestors habove
    have hmatched := (List.forall₂_and_left _ _).2 ⟨hmem, M.around h⟩
    exact filterMap_matched (fun p p' hp => M.typeAt_matched hp.2 hp.1) hmatched
  have hmember := findSome_matched (S := M.MatchesMember) (f := (·.member? name))
    (g := (·.member? name)) (fun a b hab => M.member_matched hab hname) htypes
  unfold Model.nameAt?
  generalize s.visible? name = x at hvisible ⊢
  generalize s'.visible? name = y at hvisible ⊢
  cases hvisible with
  | some hab => exact .some hab
  | none =>
      dsimp only
      generalize List.findSome? (DeclaredType.member? · name) _ = x at hmember ⊢
      generalize List.findSome? (DeclaredType.member? · name) _ = y at hmember ⊢
      cases hmember with
      | some hab => exact .some hab.symbol
      | none => exact M.typeNamed_matched name

/-- What a member access refers to depends on its receiver and on the name behind the dot. -/
theorem referent_access (m : Model) (hkind : s.kind = .memberAccessExpression) :
    m.referent? s = s.left?.bind fun receiver => (s.memberName?.bind identText?).bind fun name =>
      m.accessed? receiver name (m.referent? receiver) := by
  rw [Model.referent?]
  simp only [hkind]
  split
  · next hleft =>
    rw [hleft]
    rfl
  · next hleft =>
    rw [hleft]
    rfl

/-- A call refers to what it calls. -/
theorem referent_call (m : Model) (hkind : s.kind = .invocationExpression) :
    m.referent? s = s.left?.bind m.referent? := by
  rw [Model.referent?]
  simp only [hkind]
  split
  · next hleft =>
    rw [hleft]
    rfl
  · next hleft =>
    rw [hleft]
    rfl

/-- **An expression refers to corresponding symbols.**  `simple` are the sites below which simple names
refer to corresponding variables. -/
theorem referent_matched {simple : Site → Prop}
    (hleft : ∀ {s r}, simple s → s.left? = some r → simple r)
    (hvisible : ∀ {s s'} name, M.rel s s' → simple s → s.kind = .identifierName →
      s.identText? = some name → Option.Rel M.Matches (s.visible? name) (s'.visible? name))
    (h : M.rel s s') (hs : simple s) :
    Option.Rel M.Matches (m.referent? s) (m'.referent? s') := by
  induction hn : sizeOf s.tree using Nat.strongRecOn generalizing s s' with
  | ind n ih =>
      subst hn
      have hkind := M.kind_eq h
      by_cases haccess : s.kind = .memberAccessExpression
      · have hexempt := M.not_exempt haccess nofun nofun nofun
        have hreceiver := M.left_matched h hexempt
        rw [referent_access m haccess, referent_access m' (hkind.symm.trans haccess),
          ← M.memberName_eq h hexempt]
        generalize hl : s.left? = l at hreceiver
        generalize s'.left? = l' at hreceiver
        cases hreceiver with
        | none => exact .none
        | some hr =>
            cases hname : s.memberName?.bind identText? with
            | none => exact .none
            | some name =>
                exact M.accessed_matched hr (M.unused_memberName h hexempt hname)
                  (ih _ (sizeOf_tree_lt_of_left? hl) hr (hleft hs hl) rfl)
      · by_cases hcall : s.kind = .invocationExpression
        · have hcallee := M.left_matched h (M.not_exempt hcall nofun nofun nofun)
          rw [referent_call m hcall, referent_call m' (hkind.symm.trans hcall)]
          generalize hl : s.left? = l at hcallee
          generalize s'.left? = l' at hcallee
          cases hcallee with
          | none => exact .none
          | some hr => exact ih _ (sizeOf_tree_lt_of_left? hl) hr (hleft hs hl) rfl
        · rw [Model.referent?, Model.referent?, ← hkind]
          split
          · next hname =>
            rw [← M.identText_eq h]
            cases htext : s.identText? with
            | none => exact .none
            | some name => exact M.nameAt_matched h hname (M.unused h hname htext) (hvisible name h hs hname htext)
          · contradiction
          · contradiction
          · next htype =>
            rw [M.typeText_eq h htype]
            exact M.typeNamed_matched _
          · exact .none

/-- The access that a name stands behind corresponds. -/
theorem accessOf_matched (h : M.rel s s') :
    Option.Rel M.rel (Model.accessOf? s) (Model.accessOf? s') := by
  have hfilter (s : Site) (p : Option Site) :
      (p.filter fun p => p.kind == .memberAccessExpression && p.memberName?.any (·.same s)) =
        (p.filter (·.kind == .memberAccessExpression)).filter (·.memberName?.any (·.same s)) := by
    cases p with
    | none => rfl
    | some p => cases hk : p.kind == .memberAccessExpression <;> simp [Option.filter, hk]
  unfold Model.accessOf?
  rw [← M.kind_eq h]
  split
  · rw [hfilter, hfilter]
    have hparent := M.parentOf (k := .memberAccessExpression) nofun nofun h
    generalize s.parent?.filter (·.kind == .memberAccessExpression) = x at hparent ⊢
    generalize s'.parent?.filter (·.kind == .memberAccessExpression) = y at hparent ⊢
    cases hparent with
    | none => exact .none
    | @some p p' hp =>
        have hnames := last_matched
          (M.childrenOf_matched .identifierName hp.1 (M.not_exempt hp.2 nofun nofun nofun))
        have hany : p.memberName?.any (·.same s) = p'.memberName?.any (·.same s') :=
          any_eq_of_matched hnames fun n n' hn => M.same_eq hn.1 h
        rw [Option.filter_some, Option.filter_some, hany]
        split
        · exact .some hp.1
        · exact .none
  · exact .none

/-- **A name refers to corresponding symbols.** -/
theorem symbol_matched {simple : Site → Prop}
    (hleft : ∀ {s r}, simple s → s.left? = some r → simple r)
    (hvisible : ∀ {s s'} name, M.rel s s' → simple s → s.kind = .identifierName →
      s.identText? = some name → Option.Rel M.Matches (s.visible? name) (s'.visible? name))
    (h : M.rel s s') (hs : simple ((Model.accessOf? s).getD s)) :
    Option.Rel M.Matches (m.symbol? s) (m'.symbol? s') := by
  refine M.referent_matched hleft hvisible ?_ hs
  have haccess := M.accessOf_matched h
  generalize Model.accessOf? s = x at haccess ⊢
  generalize Model.accessOf? s' = y at haccess ⊢
  cases haccess with
  | none => exact h
  | some hp => exact hp

end Matching

end CodeMend
