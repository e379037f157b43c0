import CodeMend.Proofs.Edit.Growth
import CodeMend.Proofs.Parser.EnumMembers
import CodeMend.Proofs.Semantic.MemberValue

/-!
# One more member for an enumeration

An enumeration gets another member behind those that it has, with separators around it.  If no name of
the document is that of the new member, every name refers to what it referred to before: in the tables
of the types there is one more entry, which is never looked up.  So all other sites, which keep their
places, keep their values too (`MemberGrowth.hasValue_iff`), and the new member has the value that is
written behind its name.
-/

namespace CodeMend

open Tree Site Lexer

/-! ## Values along a matching -/

/-- No rule is about enumerations. -/
theorem Model.Gives.kind_ne {m : Model} {V : Site → Constant → Prop} {s : Site} {v : Constant}
    (h : Gives m V s v) : s.kind ≠ .enumDeclaration := by
  intro hkind
  cases h with
  | name hname => simp [isName, hkind] at hname
  | literal hk | parenthesized hk | unary hk | binary hk | rightShift hk | declarator hk | member hk
  | first hk | next hk => cases hkind.symm.trans hk

namespace Carrying

variable {m m' : Model} (C : Carrying m m') {s s' : Site} {v : Constant}

/-- A derivation of a value carries over, by induction on its height. -/
theorem hasValue (hexempt : ∀ {s}, C.exempt s → s.kind = .enumDeclaration) (h : C.rel s s')
    (hv : m.HasValue s v) : m'.HasValue s' v := by
  obtain ⟨height, hv⟩ := hv
  induction height generalizing s s' v with
  | zero => exact hv.elim
  | succ height ih =>
      have hs : ¬ C.exempt s := fun hs => Model.Gives.kind_ne hv (hexempt hs)
      refine .of_gives (C.gives (V := Model.Derives m height) h hs (fun e e' w _ hrel hw => ?_) hv)
      exact ih hrel hw

/-- **Values carry over**, if only enumerations have other children. -/
theorem hasValue_iff (hexempt : ∀ {s}, C.exempt s → s.kind = .enumDeclaration) (h : C.rel s s') :
    m.HasValue s v ↔ m'.HasValue s' v := by
  refine ⟨C.hasValue hexempt h, C.symm.hasValue ?_ h⟩
  rintro r ⟨q, hrel, hq⟩
  exact (C.kind_eq hrel).symm.trans (hexempt hq)

end Carrying

/-! ## What is added -/

/-- The members of an enumeration are its children of that kind. -/
theorem Site.enumMembers_eq (s : Site) : s.enumMembers =
    s.children.filter fun r => r.isNode && r.kind == .enumMemberDeclaration := by
  rw [enumMembers, childrenOf, nodes, List.filter_filter]
  exact List.filter_congr fun r _ => Bool.and_comm _ _

/-- Separators of members: commas, blanks and line breaks. -/
def Tree.isSpacing (t : Tree) : Bool :=
  t.isToken && (t.kind == .comma || t.kind == .whitespace || t.kind == .newline)

/-- The tree of a member whose value is a number. -/
def newMember (name : String) (n : Int) : Tree :=
  Parse.memberTree (Parse.leaves Expression.spaced) name (numeral n)

/-- Rows of tokens have no nodes. -/
theorem everyNodeAmong_tokens {P : Kind → List Tree → Prop} {ts : List Tree}
    (h : ∀ t ∈ ts, t.isToken = true) : EveryNodeAmong P ts := by
  induction ts with
  | nil => trivial
  | cons t ts ih =>
      obtain ⟨ht, hts⟩ := List.forall_mem_cons.1 h
      refine ⟨?_, ih hts⟩
      cases t with
      | token k text => trivial
      | node k cs => cases ht

/-- Separators are tokens. -/
theorem Tree.isToken_of_isSpacing {t : Tree} (h : t.isSpacing = true) : t.isToken = true :=
  (Bool.and_eq_true_iff.1 h).1

/-- The kinds of separators. -/
theorem Tree.kind_of_isSpacing {t : Tree} (h : t.isSpacing = true) :
    t.kind = .comma ∨ t.kind = .whitespace ∨ t.kind = .newline := by
  simpa [or_assoc] using (Bool.and_eq_true_iff.1 h).2

/-- A number is made of plain nodes. -/
theorem everyNode_numeral (n : Int) : (numeral n).EveryNode fun k _ => k.isPlain = true := by
  cases n with
  | ofNat n => exact ⟨rfl, trivial, trivial⟩
  | negSucc n => exact ⟨rfl, trivial, ⟨rfl, trivial, trivial⟩, trivial⟩

/-- The new member is one node of its kind with a name, and plain nodes. -/
theorem everyNode_newMember {P : Kind → List Tree → Prop} {name : String} {n : Int}
    (hplain : ∀ k cs, k.isPlain = true → P k cs)
    (hmember : ∀ cs, .token .ident name ∈ cs → P .enumMemberDeclaration cs) :
    (newMember name n).EveryNode P := by
  have hvalue := (everyNode_mono (Q := P) (fun k cs => hplain k cs)).1 _ (everyNode_numeral n)
  exact ⟨hmember _ List.mem_cons_self, trivial, trivial,
    ⟨hplain _ _ rfl, trivial, trivial, hvalue, trivial⟩, trivial⟩

/-- A new member between separators, and what stands behind it. -/
abbrev grown (before after back : List Tree) (name : String) (n : Int) : List Tree :=
  (before ++ newMember name n :: after) ++ back

/-- An enumeration gets another member behind those in front; what follows there are tokens. -/
structure MemberGrowth (version : Nat) (text : String) (d' : Document) (enum : Site)
    (front before after back : List Tree) (name : String) (n : Int) : Prop where
  clean : (Document.ofText version text).errors = []
  mem : enum ∈ (Document.ofText version text).root.subtree
  tree_eq : enum.tree = .node .enumDeclaration (front ++ back)
  front_ne : front ≠ []
  back_tokens : ∀ t ∈ back, t.isToken = true
  spacing : ∀ t ∈ before ++ after, t.isSpacing = true
  named : name ≠ ""
  result : d'.tree = rebuild (.node .enumDeclaration
    (front ++ grown before after back name n)) enum.above

namespace MemberGrowth

variable {version : Nat} {text : String} {d' : Document} {enum : Site}
  {front before after back : List Tree} {name : String} {n : Int}
  (G : MemberGrowth version text d' enum front before after back name n)

include G

/-- The trees differ in the enumeration. -/
theorem hole : Hole (.node .enumDeclaration (front ++ back))
    (.node .enumDeclaration (front ++ grown before after back name n)) enum.path
    (Document.ofText version text).tree d'.tree := by
  have hhere : Hole (.node .enumDeclaration (front ++ back))
      (.node .enumDeclaration (front ++ grown before after back name n)) []
      (.node .enumDeclaration (front ++ back))
      (.node .enumDeclaration (front ++ grown before after back name n)) := .here
  have hhole := hhere.rebuild enum.above
  rw [List.nil_append, ← G.tree_eq, rebuild_eq G.mem, ← G.result] at hhole
  rwa [← G.tree_eq]

/-- What stands behind the old members, before and after, as far as kinds of nodes go. -/
theorem everyNode_back {P : Kind → List Tree → Prop} (hplain : ∀ k cs, k.isPlain = true → P k cs)
    (hmember : ∀ cs, .token .ident name ∈ cs → P .enumMemberDeclaration cs) :
    EveryNodeAmong P back ∧ EveryNodeAmong P (grown before after back name n) := by
  have hback : EveryNodeAmong P back := everyNodeAmong_tokens G.back_tokens
  have hspacing {ts : List Tree} (h : ∀ t ∈ ts, t ∈ before ++ after) : EveryNodeAmong P ts :=
    everyNodeAmong_tokens fun t ht => Tree.isToken_of_isSpacing (G.spacing t (h t ht))
  refine ⟨hback, everyNodeAmong_append.2 ⟨everyNodeAmong_append.2 ⟨?_, ?_, ?_⟩, hback⟩⟩
  · exact hspacing fun t ht => List.mem_append_left _ ht
  · exact everyNode_newMember hplain hmember
  · exact hspacing fun t ht => List.mem_append_right _ ht

/-- The enumeration has the same tokens as before, and separators. -/
theorem tokens_grown : (front ++ grown before after back name n).filter Tree.isToken =
    front.filter Tree.isToken ++ ((before ++ after) ++ back.filter Tree.isToken) := by
  have hspacing : (before ++ after).filter Tree.isToken = before ++ after :=
    List.filter_eq_self.2 fun t ht => Tree.isToken_of_isSpacing (G.spacing t ht)
  have hmember : ¬ (newMember name n).isToken = true := Bool.false_ne_true
  rw [List.filter_append] at hspacing
  rw [List.filter_append, List.filter_append, List.filter_append, List.filter_cons_of_neg hmember,
    hspacing]

/-- The way to what the counterparts leave out. -/
abbrev Related (_ : MemberGrowth version text d' enum front before after back name n) :
    Site → Site → Prop :=
  Beside (Behind front.length enum.path) (Document.ofText version text).root d'.root

variable {s s' : Site}

/-- Sites that correspond are in the same place, or they are the enumeration before and after.
-/
theorem front_cases (h : G.Related s s') :
    Twin (.node .enumDeclaration (front ++ back))
      (.node .enumDeclaration (front ++ grown before after back name n)) enum.path s s' ∨
    s = enum ∧ s.tree = .node .enumDeclaration (front ++ back) ∧
      s'.tree = .node .enumDeclaration (front ++ grown before after back name n) := by
  refine (Beside.front_cases G.hole h).imp_right fun ⟨hpath, htree, htree'⟩ => ⟨?_, htree, htree'⟩
  exact eq_of_path_eq.1 _ _ _ _ s h.mem enum G.mem hpath

/-- Sites that correspond have trees that look alike to the model. -/
theorem like (h : G.Related s s') : Like s.tree s'.tree := by
  rcases G.front_cases h with htwin | ⟨-, htree, htree'⟩
  · exact htwin.patched.like
  · rw [htree, htree']
    exact ⟨rfl, rfl, nofun⟩

omit G in
/-- The enumeration does not lose text. -/
theorem width_le : (Tree.node .enumDeclaration (front ++ back)).width ≤
    (Tree.node .enumDeclaration (front ++ grown before after back name n)).width := by
  simp only [width, widthAll_append]
  omega

/-- Adding a member is an alteration: nothing else changes, and the enumeration keeps its head.
-/
theorem altering : Altering version text d' (Behind front.length enum.path) where
  clean := G.clean
  like h := G.like h
  type_eq h htype := by
    rcases G.front_cases h with htwin | ⟨-, htree, -⟩
    · refine Document.eq_of_type G.clean h.mem htype (fun hpart => ?_) htwin.patched
      exact Bool.false_ne_true (show Parse.isTypePart .enumDeclaration = true from hpart.1)
    · rw [Site.kind, htree] at htype
      cases htype
  named := by
    intro s s' h htype
    obtain ⟨hsNode, hsType⟩ := Bool.and_eq_true_iff.1 htype
    have hs := Document.named_type G.clean h.mem hsNode hsType
    rcases G.front_cases h with htwin | ⟨-, htree, htree'⟩
    · refine named_of_tokens hs ?_ (htwin.patched.tokens_eq rfl rfl)
      rw [Site.isNode, Tree.isNode, ← (G.like h).isToken_eq]
      exact hsNode
    · obtain ⟨-, token, hmem, hleaf, hwidth⟩ := hs
      rw [htree] at hmem
      refine ⟨by rw [Site.isNode, htree']; rfl, token, ?_, hleaf, hwidth⟩
      rw [htree']
      refine (List.mem_append.1 hmem).elim (List.mem_append_left _) fun hmem => ?_
      exact List.mem_append_right _ (List.mem_append_right _ hmem)
  solid := by
    intro s s' h hwidth
    rcases G.front_cases h with htwin | ⟨-, htree, htree'⟩
    · rcases htwin.patched with heq | ⟨v, -, hbelow⟩
      · rwa [← heq]
      · exact Nat.lt_of_lt_of_le hwidth (hbelow.width_mono width_le)
    · rw [htree']
      rw [htree] at hwidth
      exact Nat.lt_of_lt_of_le hwidth width_le
  declared := by
    have hnone {ts : List Tree}
        (h : EveryNodeAmong (fun k _ => k.isTypeDeclaration = false) ts) (origin start : Nat)
        (above : List Frame) (here : Nat) (before : List Tree) :
        ∀ s ∈ subtreesOf origin .enumDeclaration start above here before ts,
          (s.tree.kind.isTypeDeclaration && s.tree.isNode) = false := by
      intro s hs
      have heach := everyNode_of_mem.2 _ _ _ _ _ _ _ h s hs
      obtain ⟨tree, start, above, origin⟩ := s
      cases tree with
      | token k spelling => exact Bool.and_false _
      | node k cs => exact Bool.and_eq_false_iff.2 (Or.inl heach.1)
    -- no type is declared behind the new member, so the types are those before it
    obtain ⟨hback, hback'⟩ := G.everyNode_back (P := fun k _ => k.isTypeDeclaration = false)
      (fun k _ hk => by cases k <;> first | rfl | cases hk) (fun _ _ => rfl)
    unfold subnodes
    rw [List.filter_filter, List.filter_filter]
    exact G.hole.filter_front (p := fun t => t.kind.isTypeDeclaration && t.isNode)
      (fun t t' h => by rw [h.kind_eq, Tree.isNode, Tree.isNode, h.isToken_eq]) rfl (hnone hback)
      (hnone hback') _ _

/-! ## The members -/

/-- The enumeration afterwards. -/
def place (_ : MemberGrowth version text d' enum front before after back name n) : Site :=
  ⟨.node .enumDeclaration (front ++ grown before after back name n), enum.start, enum.above,
    d'.origin⟩

/-- The enumeration afterwards corresponds to the one before. -/
theorem place_rel : G.Related enum G.place := by
  refine ⟨G.mem, ?_, rfl, fun p hp => ?_⟩
  · have hmem := mem_rebuild G.mem
      (.node .enumDeclaration (front ++ grown before after back name n)) d'.origin
    rwa [← G.result] at hmem
  · rintro ⟨i, -, rfl⟩
    have hlength := hp.length_le
    simp only [List.length_cons] at hlength
    omega

/-- Nothing else corresponds to it. -/
theorem eq_place (h : G.Related enum s') : s' = G.place :=
  eq_of_path_eq.1 _ _ _ _ s' h.mem' G.place G.place_rel.mem' h.path_eq.symm

/-- **The members afterwards** are those before, in the same places, and the new one. -/
theorem exists_members : ∃ members new, G.place.enumMembers = members ++ [new] ∧
    new ∈ G.place.children ∧ new.tree = newMember name n ∧
    new.start = enum.start + widthAll (front ++ before) ∧
    List.Forall₂ (fun s s' => G.Related s s' ∧ s.tree = s'.tree) enum.enumMembers members := by
  obtain ⟨F, B, F', B', hsplit, hsplit', hB, hB', hF⟩ :=
    G.place_rel.front_children G.tree_eq rfl
  have htokens (ss : List Site) (h : ∀ t ∈ ss.map Site.tree, t.isToken = true) :
      ss.filter (fun r => r.isNode && r.kind == .enumMemberDeclaration) = [] := by
    refine List.filter_eq_nil_iff.2 fun r hr => ?_
    have htoken := h r.tree (List.mem_map_of_mem hr)
    simp [Site.isNode, Tree.isNode, htoken]
  -- behind the old members there are the separators and the new one
  obtain ⟨C, rest, rfl, hC, hrest⟩ := List.map_eq_append_iff.1
    (hB'.trans (List.append_assoc before (newMember name n :: after) back))
  obtain ⟨new, D, rfl, hnew, hD⟩ := List.map_eq_cons_iff.1 hrest
  have hspacing : ∀ t ∈ before ++ after, t.isToken = true := fun t ht =>
    Tree.isToken_of_isSpacing (G.spacing t ht)
  have hleft : enum.enumMembers =
      F.filter fun r => r.isNode && r.kind == .enumMemberDeclaration := by
    rw [enumMembers_eq, hsplit, List.filter_append,
      htokens B (by rw [hB]; exact G.back_tokens), List.append_nil]
  have hright : G.place.enumMembers =
      F'.filter (fun r => r.isNode && r.kind == .enumMemberDeclaration) ++ [new] := by
    have hfit : (new.isNode && new.kind == .enumMemberDeclaration) = true := by
      rw [Site.isNode, Site.kind, hnew]
      rfl
    have hbehind : ∀ t ∈ D.map tree, t.isToken = true := by
      rw [hD]
      intro t ht
      exact (List.mem_append.1 ht).elim (fun ht => hspacing t (List.mem_append_right _ ht))
        (G.back_tokens t)
    have hsingle : (new :: D).filter (fun r => r.isNode && r.kind == .enumMemberDeclaration) =
        [new] := by
      rw [List.filter_cons, if_pos hfit, htokens D hbehind]
    rw [enumMembers_eq, hsplit', List.filter_append, List.filter_append, hsingle,
      htokens C (by rw [hC]; exact fun t ht => hspacing t (List.mem_append_left _ ht)),
      List.nil_append]
  refine ⟨_, new, hright, by rw [hsplit']; simp, hnew, ?_, ?_⟩
  · have hfront : F'.map tree = front := by
      have htrees := map_tree_children G.place
      rw [hsplit', List.map_append, hB'] at htrees
      exact List.append_cancel_right htrees
    have hbehind : G.place.children = (F' ++ C) ++ new :: D := by rw [hsplit', List.append_assoc]
    rw [start_of_split hbehind, List.map_append, hfront, hC]
    rfl
  · rw [hleft]
    exact filter_matched (fun r r' h => by rw [Site.isNode, Site.kind, h.2]; rfl) hF

/-! ## The matching -/

omit G in
/-- The new member has the name it was given. -/
theorem identText_new {new : Site} (h : new.tree = newMember name n) :
    new.identText? = some name := by
  rw [identText?_eq, h]
  simp [newMember, Parse.memberTree, Parse.leaves, Expression.spaced, Tree.children, Tree.isToken,
    blank, Tree.kind, Tree.text, Tree.tokens]

/-- The enumeration keeps its name. -/
theorem identText_place : enum.identText? = G.place.identText? := by
  have hspacing : (before ++ after).find? (·.kind == .ident) = none := by
    refine List.find?_eq_none.2 fun t ht => ?_
    rcases Tree.kind_of_isSpacing (G.spacing t ht) with h | h | h <;> rw [h] <;> decide
  have hgrown := G.tokens_grown
  rw [identText?_eq, identText?_eq, G.tree_eq,
    show G.place.tree.children.filter Tree.isToken = _ from hgrown,
    show (Tree.node .enumDeclaration (front ++ back)).children.filter Tree.isToken = _ from
      List.filter_append front back,
    List.find?_append, List.find?_append, List.find?_append, hspacing, Option.none_or]

/-- Is no name of the document that of the new member? -/
def Unused (version : Nat) (text name : String) : Prop :=
  ∀ s ∈ (Document.ofText version text).root.subnodes, s.kind = .identifierName →
    s.identText? ≠ some name

/-- All sites but those behind the members, as a matching of the models. -/
def matching (catalog : Catalog) (hunused : Unused version text name) :
    Matching (.ofDocument (.ofText version text) catalog) (.ofDocument d' catalog) :=
  G.altering.matching catalog (· = enum) (· == name)
    (by
      rintro s rfl
      exact Or.inr (Or.inr (congrArg Tree.kind G.tree_eq)))
    (by
      rintro s s' h rfl
      rw [G.eq_place h]
      exact G.identText_place)
    (by
      intro s s' h hne
      have hout : ∀ i, ¬ Behind front.length enum.path (i :: s.path) := by
        rintro i ⟨j, -, heq⟩
        exact hne (eq_of_path_eq.1 _ _ _ _ s h.mem enum G.mem (List.cons.inj heq).2)
      have htwin := (G.front_cases h).resolve_right fun hplace => hne hplace.1
      have hchildren := h.children hout (htwin.patched.children_matched rfl)
      exact (filter_matched (fun r r' hr => by rw [isSignificant, isSignificant, hr.2])
        hchildren).imp fun _ _ hr => hr.1)
    (by
      rintro s s' h rfl -
      obtain ⟨members, new, hmembers, -, hnew, -, hrel⟩ := G.exists_members
      have hfresh : isKnown (· == name) new = false := by
        rw [isKnown, identText_new hnew]
        simp
      rw [G.eq_place h, hmembers, List.filter_append, List.filter_cons_of_neg (by simp [hfresh]),
        List.filter_nil, List.append_nil]
      refine (filter_matched (fun r r' hr => ?_) hrel).imp fun _ _ hr => hr.1
      rw [isKnown, isKnown, identText?_eq, identText?_eq, hr.2])
    (by
      intro s s' other h hkind hname
      refine beq_eq_false_iff_ne.2 fun heq => hunused s (List.mem_filter.2 ⟨h.mem, ?_⟩) hkind ?_
      · obtain ⟨tree, start, above, origin⟩ := s
        cases tree with
        | token k spelling => cases hname
        | node k cs => rfl
      · rw [hname, heq])

/-- The member before an old member is an old one. -/
theorem previous_matched (catalog : Catalog) (hunused : Unused version text name) (h : G.Related s s')
    (hkind : s.kind = .enumMemberDeclaration) :
    Option.Rel G.Related (Model.previousMember? s) (Model.previousMember? s') := by
  let M := G.matching catalog hunused
  have hparent := head_matched h.above
  rw [properAncestors_head?, properAncestors_head?] at hparent
  generalize hp : s.parent? = x at hparent
  generalize hp' : s'.parent? = y at hparent
  cases hparent with
  | none =>
      rw [Model.previousMember?, Model.previousMember?, leftSiblings, leftSiblings, hp, hp']
      exact .none
  | @some p p' hrel =>
      refine M.previousMember_matched h hkind hp hp' hrel ?_
      have hsame {a a' : Site} (hab : G.Related a a') : (!a.same s) = !a'.same s' :=
        congrArg not (M.same_eq hab h)
      by_cases hplace : p = enum
      · subst hplace
        obtain rfl := G.eq_place hrel
        obtain ⟨F, B, F', B', hsplit, hsplit', hB, -, hF⟩ := G.place_rel.front_children G.tree_eq rfl
        -- the member stands in front, since only tokens stand behind
        have hmem : s ∈ F := by
          have hchild := mem_children_of_parent? h.mem hp
          rw [hsplit] at hchild
          refine (List.mem_append.1 hchild).resolve_right fun hback => ?_
          have htoken := G.back_tokens s.tree (hB ▸ List.mem_map_of_mem hback)
          have hnode := Document.isNode_of_member h.mem hkind
          rw [Site.isNode, Tree.isNode, htoken] at hnode
          cases hnode
        obtain ⟨r, hr, hsr⟩ := exists_of_mem_left hF hmem
        obtain rfl : s' = r := eq_of_path_eq.1 _ _ _ _ s' h.mem' r hsr.1.mem'
          (h.path_eq.symm.trans hsr.1.path_eq)
        have hsignificant : s.isSignificant = true :=
          Matching.isSignificant_of_kind (by rw [hkind]; rfl)
        have hsignificant' : s'.isSignificant = true := by
          rw [isSignificant, Site.isTrivia, ← hsr.2]
          exact hsignificant
        rw [hsplit, hsplit', List.filter_append, List.filter_append,
          takeWhile_append_of_mem (List.mem_filter.2 ⟨hmem, hsignificant⟩) (by simp [same_self]),
          takeWhile_append_of_mem (List.mem_filter.2 ⟨hr, hsignificant'⟩) (by simp [same_self])]
        refine takeWhile_matched (fun a a' hab => hsame hab) ?_
        refine (filter_matched (fun a a' hab => ?_) hF).imp fun _ _ hab => hab.1
        rw [isSignificant, isSignificant, Site.isTrivia, Site.isTrivia, hab.2]
      · exact takeWhile_matched (fun a a' hab => hsame hab) (M.children hrel hplace)

/-- Declarations of constants have names of their own, the new one too. -/
theorem namedConstants : ∀ s ∈ d'.root.subnodes, Model.isConstantNode s = true → s.Named := by
  intro s hs hconstant
  obtain ⟨hmem, hnode⟩ := List.mem_filter.1 hs
  have hkind : s.kind = .enumMemberDeclaration ∨ s.kind = .variableDeclarator := by
    simpa [Model.isConstantNode] using hconstant
  by_cases hapart : ∀ p, p <:+ s.path → ¬ Behind front.length enum.path p
  · obtain ⟨r, hbeside, hfront⟩ := G.hole.symm.exists_front hmem hapart
      (Document.ofText version text).origin
    rcases hfront with htwin | ⟨-, htree, -⟩
    · have hpatched := htwin.patched
      have hrNode : r.isNode = true := by
        rw [Site.isNode, Tree.isNode, ← hpatched.isToken_eq]
        exact hnode
      have hr : r ∈ (Document.ofText version text).root.subnodes :=
        List.mem_filter.2 ⟨hbeside.mem', hrNode⟩
      have hrConstant : Model.isConstantNode r = true := by
        rw [Model.isConstantNode, Site.kind, ← hpatched.kind_eq]
        exact hconstant
      refine named_of_tokens (Document.named_constantNode G.clean hr hrConstant) hnode ?_
      exact (hpatched.tokens_eq rfl rfl).symm
    · rw [Site.kind, htree] at hkind
      rcases hkind with h | h <;> cases h
  · simp only [not_forall, not_not] at hapart
    obtain ⟨-, hsuffix, i, hi, rfl⟩ := hapart
    obtain ⟨⟨tree, start, above, stamp⟩, -, hpath, htree, hbelow⟩ :=
      G.hole.symm.mem_place hmem ((List.suffix_cons i _).trans hsuffix)
    obtain rfl : tree = _ := htree
    rw [← hpath] at hsuffix
    have hback := (G.everyNode_back (P := NamedConstant)
      (fun k _ hk => by rintro (rfl | rfl) <;> cases hk)
      (fun cs hname _ => ⟨_, hname, rfl, Nat.pos_of_ne_zero fun hzero =>
        G.named (String.utf8ByteSize_eq_zero_iff.1 hzero)⟩)).2
    have heach := everyNode_of_mem.2 _ _ _ _ _ _ _ hback s (mem_back hbelow hsuffix hi)
    obtain ⟨tree, start, above, origin⟩ := s
    cases tree with
    | token k spelling => cases hnode
    | node k cs => exact ⟨rfl, heach.1 hkind⟩

/-! ## The values -/

omit G in
/-- What stands before the new member decides how the enumeration starts. -/
theorem sameStart_of_front {k : Kind} {others : List Tree} (h : front ≠ []) :
    SameStart (.node k (front ++ back)) (.node k (front ++ others)) := by
  obtain ⟨t, ts, rfl⟩ := List.exists_cons_of_ne_nil h
  exact sameStart_of_head k t (ts ++ back) (ts ++ others)

/-- The matching carries values over. -/
def carrying (catalog : Catalog) (hunused : Unused version text name) :
    Carrying (.ofDocument (.ofText version text) catalog) (.ofDocument d' catalog) where
  toMatching := G.matching catalog hunused
  unshared := by
    intro s hs hkind
    rw [show s = enum from hs, Site.kind, G.tree_eq] at hkind
    cases hkind
  above h := Beside.above h
  firstToken_eq := by
    intro s s' h
    rcases G.front_cases h with htwin | ⟨-, htree, htree'⟩
    · exact htwin.firstToken_eq (Or.inr (sameStart_of_front G.front_ne))
    · exact firstToken_eq_of_sameStart (Beside.path_eq h)
        (by rw [htree, htree']; exact sameStart_of_front G.front_ne)
  previous h hkind := G.previous_matched catalog hunused h hkind
  identify := (Document.wellPlaced G.clean catalog).identify
  identify' := (Model.wellPlaced_of_named catalog G.namedConstants).identify

/-- **Old sites keep their values.** -/
theorem hasValue_iff (catalog : Catalog) (hunused : Unused version text name) (h : G.Related s s')
    {v : Constant} : (Model.ofDocument (.ofText version text) catalog).HasValue s v ↔
      (Model.ofDocument d' catalog).HasValue s' v :=
  (G.carrying catalog hunused).hasValue_iff (fun hs => by
    rw [show _ = enum from hs, Site.kind, G.tree_eq]
    rfl) h

/-- **Old nodes keep their constants**, found or not. -/
theorem constant_eq (catalog : Catalog) (hunused : Unused version text name) (h : G.Related s s')
    (hnode : s.isNode = true) : (Model.ofDocument (.ofText version text) catalog).constant? s =
      (Model.ofDocument d' catalog).constant? s' := by
  have hnode' : s'.isNode = true := by
    rw [Site.isNode, Tree.isNode, ← (G.like h).isToken_eq]
    exact hnode
  refine Option.ext fun v => ?_
  have hold := Model.constant_iff (v := v) (Document.wellPlaced G.clean catalog)
    (List.mem_filter.2 ⟨h.mem, hnode⟩)
  have hnew := Model.constant_iff (v := v) (Model.wellPlaced_of_named catalog G.namedConstants)
    (List.mem_filter.2 ⟨h.mem', hnode'⟩)
  exact (hold.trans (G.hasValue_iff catalog hunused h)).trans hnew.symm

end MemberGrowth

end CodeMend
