import CodeMend.Proofs.Parser.Accesses
import CodeMend.Proofs.Semantic.Matching
import CodeMend.Semantic.Lookup

/-!
# Lookups come to an end

A lookup goes up from a name behind a dot to its access, down to the receiver, and up again where the
receiver is a name behind a dot itself.  The receiver of an access is no such name unless the access
has one name only and takes it for both (`namesItself`).  So without such accesses every lookup ends
with what `Model.symbol?` finds, by induction on the whole that a node belongs to (`seek_eq`); and a
lookup that comes to such an access goes round for ever (`seek_eq_none`).

The parser builds such an access only where it complains that the name is missing.
-/

namespace CodeMend

open Site

namespace Model

variable {m : Model} {root s t : Site}

/-- What a node is looked up as: the access whose name it is, else the node itself. -/
def whole (s : Site) : Site := (accessOf? s).getD s

/-- Is a node a member access that takes one and the same name for its receiver and for its name? -/
def namesItself (s : Site) : Bool :=
  s.kind == .memberAccessExpression &&
    s.left?.any fun receiver => s.memberName?.any fun name =>
      name.same receiver && name.identText?.isSome

/-- Which nodes the lookup of a node asks about next. -/
inductive Asks : Site → Site → Prop
  | receiver {s receiver : Site} : (whole s).kind = .memberAccessExpression →
      (whole s).left? = some receiver → Asks s receiver
  | callee {s callee : Site} : s.kind = .invocationExpression → s.left? = some callee →
      Asks s callee

/-! ## Up and down -/

theorem mem_children_of_expression? (h : s.expression? = some t) : t ∈ s.children :=
  (List.mem_filter.1 (List.mem_of_find?_eq_some h)).1

theorem mem_children_of_left? (h : s.left? = some t) : t ∈ s.children :=
  (List.mem_filter.1 (List.mem_filter.1 (List.mem_of_head? h)).1).1

theorem mem_children_of_right? (h : s.right? = some t) : t ∈ s.children :=
  (List.mem_filter.1 (List.mem_filter.1 (List.mem_of_getElem? h)).1).1

theorem mem_children_of_memberName? (h : s.memberName? = some t) : t ∈ s.children :=
  (List.mem_filter.1 (List.mem_filter.1 (List.mem_of_getLast? h)).1).1

/-- A name behind a dot belongs to the access around it. -/
theorem accessOf?_eq_some {access : Site} (h : accessOf? s = some access) :
    s.kind = .identifierName ∧ s.parent? = some access ∧ access.kind = .memberAccessExpression ∧
      ∃ name, access.memberName? = some name ∧ name.same s = true := by
  unfold accessOf? at h
  split at h
  · next hname =>
    obtain ⟨hparent, haccess⟩ := Option.filter_eq_some_iff.1 h
    rw [Bool.and_eq_true, beq_iff_eq] at haccess
    obtain ⟨name, hmember, hsame⟩ := (Option.any_eq_true _ _).1 haccess.2
    exact ⟨beq_iff_eq.1 hname, hparent, haccess.1, name, hmember, hsame⟩
  · cases h

/-- The receiver of an access is a name behind a dot only where it is the name of the access. -/
theorem accessOf?_receiver (hleft : s.left? = some t)
    (hapart : ∀ name ∈ s.memberName?, name.same t = false) : accessOf? t = none := by
  cases haccess : accessOf? t with
  | none => rfl
  | some access =>
      obtain ⟨-, hparent, -, name, hmember, hsame⟩ := accessOf?_eq_some haccess
      obtain rfl : s = access := by
        rw [parent?_of_mem_children (mem_children_of_left? hleft)] at hparent
        exact Option.some.inj hparent
      rw [hapart name hmember] at hsame
      cases hsame

/-- What is called is not the name of an access. -/
theorem accessOf?_callee (hkind : s.kind = .invocationExpression) (hleft : s.left? = some t) :
    accessOf? t = none := by
  cases haccess : accessOf? t with
  | none => rfl
  | some access =>
      obtain ⟨-, hparent, hmember, -⟩ := accessOf?_eq_some haccess
      rw [parent?_of_mem_children (mem_children_of_left? hleft)] at hparent
      rw [← Option.some.inj hparent, hkind] at hmember
      cases hmember

theorem accessOf?_of_kind_ne (hkind : s.kind ≠ .identifierName) : accessOf? s = none := by
  rw [accessOf?, if_neg (by simpa using hkind)]

/-! ## Lookups that end -/

/-- A chain of names is always spelled to its end. -/
theorem spell_eq (s : Site) : spell s = some (qualified? s) := by
  induction hn : sizeOf s.tree using Nat.strongRecOn generalizing s with
  | ind n ih =>
      subst hn
      by_cases haccess : s.kind = .memberAccessExpression
      · rw [Matching.qualified_access haccess, spell]
        simp only [haccess]
        cases hleft : s.left? with
        | none => rfl
        | some receiver =>
            simp only [ih _ (sizeOf_tree_lt_of_left? hleft) receiver rfl, Option.bind_eq_bind,
              Option.bind_some]
            cases qualified? receiver <;> rfl
      · rw [spell]
        split
        · next hkind =>
          rw [qualified?]
          simp only [hkind]
        · next hkind => exact absurd hkind haccess
        · rw [qualified?]
          split <;> first | contradiction | rfl

/-- **Every round of a lookup reaches a smaller part**: where no access names itself, the lookup of
what is no name behind a dot ends, by induction on its tree. -/
theorem seek_referent (m : Model) (hplain : ∀ a ∈ s.subtree, namesItself a = false)
    (halone : accessOf? s = none) : m.seek s = some (m.referent? s) := by
  induction hn : sizeOf s.tree using Nat.strongRecOn generalizing s with
  | ind n ih =>
      subst hn
      have hbelow {r : Site} (hr : s.left? = some r) (hrAlone : accessOf? r = none) :
          m.seek r = some (m.referent? r) := by
        have hmem := mem_subtree_of_mem_children (mem_children_of_left? hr)
        exact ih _ (sizeOf_tree_lt_of_left? hr)
          (fun a ha => hplain a (subtree_trans.1 _ _ _ _ r hmem a ha)) hrAlone rfl
      by_cases haccess : s.kind = .memberAccessExpression
      · rw [Matching.referent_access m haccess, seek]
        simp only [haccess]
        rw [seekMember]
        cases hleft : s.left? with
        | none => cases s.memberName?.bind identText? <;> rfl
        | some receiver =>
            cases hname : s.memberName?.bind identText? with
            | none => rfl
            | some name =>
                have hreceiver := accessOf?_receiver hleft fun n hn => by
                  have hself := hplain s (mem_subtree_self s)
                  rw [Option.mem_def.1 hn, Option.bind_some] at hname
                  simpa [namesItself, haccess, hleft, Option.mem_def.1 hn, hname] using hself
                simp only [hbelow hleft hreceiver, spell_eq, Option.bind_eq_bind, Option.bind_some]
                cases m.referent? receiver <;> rfl
      · by_cases hcall : s.kind = .invocationExpression
        · rw [Matching.referent_call m hcall, seek]
          simp only [hcall]
          cases hleft : s.left? with
          | none => rfl
          | some callee => exact hbelow hleft (accessOf?_callee hcall hleft)
        · rw [seek]
          split
          · next hkind =>
            rw [referent?]
            simp only [halone, hkind]
          · next hkind => exact absurd hkind haccess
          · next hkind => exact absurd hkind hcall
          · next hkind =>
            rw [referent?]
            simp only [hkind]
          · rw [referent?]
            split <;> first | contradiction | rfl

variable {origin : Nat} {tree : Tree}

/-- **Lookups end where no access names itself**, with what the semantic model says. -/
theorem seek_eq (m : Model) (hplain : ∀ a ∈ (top origin tree).subtree, namesItself a = false)
    (hs : s ∈ (top origin tree).subtree) : m.seek s = some (m.symbol? s) := by
  have hwithin {r : Site} (hr : r ∈ (top origin tree).subtree) :
      ∀ a ∈ r.subtree, namesItself a = false :=
    fun a ha => hplain a (subtree_trans.1 _ _ _ _ r hr a ha)
  rw [symbol?]
  cases haccess : accessOf? s with
  | none => exact seek_referent m (hwithin hs) haccess
  | some access =>
      obtain ⟨hname, hparent, hkind, -⟩ := accessOf?_eq_some haccess
      have hmem := ancestors_mem hs (parent_mem_ancestors hparent)
      have hround : m.seek s = m.seek access := by
        rw [seek, seek]
        simp only [hname, haccess, hkind]
      rw [hround, Option.getD_some]
      exact seek_referent m (hwithin hmem) (accessOf?_of_kind_ne (by rw [hkind]; nofun))

/-! ### Types of expressions -/

theorem type_parens (m : Model) (hkind : s.kind = .parenthesizedExpression) :
    m.typeOfExpression? s = s.expression?.bind m.typeOfExpression? := by
  rw [typeOfExpression?]
  simp only [hkind]
  split
  · next h => rw [h, Option.bind_some]
  · next h => rw [h, Option.bind_none]

/-- The type of an operator before its operand: `bool` for a negation, else that of the operand.
-/
theorem type_prefixUnary (m : Model) (hkind : s.kind = .prefixUnaryExpression) :
    m.typeOfExpression? s = s.firstKind?.bind fun operator =>
      if operator == .bang then some "bool" else s.expression?.bind m.typeOfExpression? := by
  rw [typeOfExpression?]
  simp only [hkind]
  refine congrArg _ (funext fun operator => ?_)
  split
  · rfl
  · split
    · next h => rw [h, Option.bind_some]
    · next h => rw [h, Option.bind_none]

/-- The type of an operator between operands: `bool` for a comparison, else the type that both
operands have. -/
theorem type_binary (m : Model) (hkind : s.kind = .binaryExpression) :
    m.typeOfExpression? s = s.operator?.bind fun operator =>
      if isPredicate operator || (operator == .gt && !s.isRightShift) then some "bool"
      else s.left?.bind fun l => s.right?.bind fun r => (m.typeOfExpression? l).bind fun a =>
        (m.typeOfExpression? r).bind fun b => if a == b then some a else none := by
  rw [typeOfExpression?]
  simp only [hkind]
  refine congrArg _ (funext fun operator => ?_)
  split
  · rfl
  · split
    · next hl hr => rw [hl, hr]; rfl
    · next hnot =>
      cases hl : s.left? with
      | none => rfl
      | some l =>
          cases hr : s.right? with
          | none => rfl
          | some r => exact absurd hr (hnot l r hl)

/-- Where the type of the operand is found, so is that of a prefix expression. -/
theorem seekType_prefixUnary (m : Model) (hkind : s.kind = .prefixUnaryExpression)
    (hbelow : ∀ r ∈ s.children, m.seekType r = some (m.typeOfExpression? r)) :
    m.seekType s = some (m.typeOfExpression? s) := by
  rw [seekType, type_prefixUnary m hkind]
  simp only [hkind]
  cases s.firstKind? with
  | none => rfl
  | some operator =>
      by_cases hbang : operator = .bang
      · rw [hbang]
        rfl
      · simp only [Option.bind_some, beq_eq_false_iff_ne.2 hbang]
        cases he : s.expression? with
        | none => rfl
        | some e => exact hbelow e (mem_children_of_expression? he)

/-- Where the types of the operands are found, so is that of a binary expression. -/
theorem seekType_binary (m : Model) (hkind : s.kind = .binaryExpression)
    (hbelow : ∀ r ∈ s.children, m.seekType r = some (m.typeOfExpression? r)) :
    m.seekType s = some (m.typeOfExpression? s) := by
  rw [seekType, type_binary m hkind]
  simp only [hkind]
  cases s.operator? with
  | none => rfl
  | some operator =>
      dsimp only [Option.bind_some]
      split
      · rfl
      · cases hl : s.left? with
        | none => rfl
        | some l =>
            have hleft := hbelow l (mem_children_of_left? hl)
            cases hr : s.right? with
            | none => simp [hleft]
            | some r =>
                have hright := hbelow r (mem_children_of_right? hr)
                simp only [hleft, hright, Option.bind_eq_bind, Option.bind_some]
                cases m.typeOfExpression? l with
                | none => rfl
                | some a => cases m.typeOfExpression? r <;> rfl

/-- The search for a type that recurses as it is written gives what the total function gives, by
induction on the size of the expression, where no access names itself. -/
theorem seekType_eq (m : Model) (hplain : ∀ a ∈ (top origin tree).subtree, namesItself a = false)
    (hs : s ∈ (top origin tree).subtree) : m.seekType s = some (m.typeOfExpression? s) := by
  induction hn : sizeOf s.tree using Nat.strongRecOn generalizing s with
  | ind n ih =>
      subst hn
      have hbelow : ∀ r ∈ s.children, m.seekType r = some (m.typeOfExpression? r) := fun r hr =>
        ih _ (sizeOf_tree_lt_of_mem_children hr) (mem_subtree_child hs hr) rfl
      by_cases hunary : s.kind = .prefixUnaryExpression
      · exact seekType_prefixUnary m hunary hbelow
      by_cases hbinary : s.kind = .binaryExpression
      · exact seekType_binary m hbinary hbelow
      rw [seekType]
      split
      · next hkind =>
        rw [typeOfExpression?]
        simp only [hkind]
      · next hkind =>
        rw [type_parens m hkind]
        cases he : s.expression? with
        | none => rfl
        | some e => exact hbelow e (mem_children_of_expression? he)
      · next hkind => exact absurd hkind hunary
      · next hkind => exact absurd hkind hbinary
      · next hkind =>
        rw [typeOfExpression?]
        simp only [hkind]
      · next hkind =>
        rw [typeOfExpression?, seek_eq m hplain hs]
        simp only [hkind]
        rfl
      · next hkind =>
        rw [typeOfExpression?, seek_eq m hplain hs]
        simp only [hkind]
        rfl
      · next hkind =>
        rw [typeOfExpression?, seek_eq m hplain hs]
        simp only [hkind]
        rfl
      · rw [typeOfExpression?]
        split <;> first | contradiction | rfl

/-! ## Lookups that go round -/

/-- What it means for an access to name itself: its receiver has the access for its own. -/
theorem namesItself_iff {access : Site} : namesItself access = true ↔
    access.kind = .memberAccessExpression ∧ ∃ receiver, access.left? = some receiver ∧
      access.memberName? = some receiver ∧ receiver.identText?.isSome = true := by
  simp only [namesItself, Bool.and_eq_true, beq_iff_eq, Option.any_eq_true]
  refine and_congr_right fun _ => ⟨?_, ?_⟩
  · rintro ⟨receiver, hleft, name, hname, hsame, htext⟩
    have hmember := mem_children_of_memberName? hname
    obtain rfl := (same_iff (mem_subtree_of_mem_children hmember)
      (mem_subtree_of_mem_children (mem_children_of_left? hleft))).1 hsame
    exact ⟨name, hleft, hname, htext⟩
  · rintro ⟨receiver, hleft, hname, htext⟩
    exact ⟨receiver, hleft, receiver, hname, same_self receiver, htext⟩

/-- **An access that names itself is looked up for ever**: its receiver asks for the access, and the
access for its receiver. -/
theorem seekMember_eq_none (m : Model) {access : Site} (h : namesItself access = true) :
    m.seekMember access = none := by
  obtain ⟨hkind, receiver, hleft, hname, htext⟩ := namesItself_iff.1 h
  have hident : receiver.kind = .identifierName :=
    beq_iff_eq.1 (List.mem_filter.1 (List.mem_of_getLast? hname)).2
  have hround : accessOf? receiver = some access := by
    have hparent := parent?_of_mem_children (mem_children_of_left? hleft)
    rw [accessOf?, if_pos (beq_iff_eq.2 hident), hparent]
    simp [hkind, hname, same_self]
  obtain ⟨spelling, hspelling⟩ := Option.isSome_iff_exists.1 htext
  have hnever : (∀ s r, m.seek s = some r → s ≠ receiver) ∧
      ∀ a r, m.seekMember a = some r → a ≠ access := by
    refine seek.mutual_partial_correctness m _ _ (fun seek seekMember _ hmember s r hr hs => ?_)
      fun seek hseek a r hr ha => ?_
    · subst hs
      simp only [hident, hround] at hr
      exact hmember access r hr rfl
    · subst ha
      simp only [hname, hleft, Option.bind_some, hspelling, Option.bind_eq_bind] at hr
      obtain ⟨found, hfound, -⟩ := Option.bind_eq_some_iff.1 hr
      exact hseek receiver found hfound rfl
  cases hfound : m.seekMember access with
  | none => rfl
  | some r => exact absurd rfl (hnever.2 access r hfound)

theorem seek_eq_none (m : Model) (h : namesItself s = true) : m.seek s = none := by
  have hround : m.seek s = m.seekMember s := by
    rw [seek]
    simp only [(namesItself_iff.1 h).1]
  rw [hround, seekMember_eq_none m h]

/-- Only a node can name itself. -/
theorem isNode_of_namesItself (h : namesItself s = true) : s.isNode = true := by
  obtain ⟨-, receiver, hleft, -⟩ := namesItself_iff.1 h
  have hmem : receiver.tree ∈ s.tree.children := tree_mem_of_mem_row (mem_children_of_left? hleft)
  cases htree : s.tree with
  | token k spelling => simp [htree, Tree.children] at hmem
  | node k cs => rw [isNode, htree]; rfl

/-- **The boundary.**  Whatever the tree, the lookups of all its nodes come to an end if and only if
none of its accesses names itself. -/
theorem seek_ends_iff (m : Model) :
    (∀ s ∈ (top origin tree).subnodes, (m.seek s).isSome = true) ↔
      ∀ s ∈ (top origin tree).subnodes, namesItself s = false := by
  constructor
  · intro hends s hs
    refine Bool.eq_false_iff.2 fun hnames => ?_
    have hsome := hends s hs
    rw [seek_eq_none m hnames] at hsome
    cases hsome
  · intro hplain s hs
    have hall : ∀ a ∈ (top origin tree).subtree, namesItself a = false := fun a ha =>
      Bool.eq_false_iff.2 fun hnames => by
        have hfalse := hplain a (List.mem_filter.2 ⟨ha, isNode_of_namesItself hnames⟩)
        rw [hnames] at hfalse
        cases hfalse
    rw [seek_eq m hall (List.mem_filter.1 hs).1]
    rfl

/-- An access without a name takes its receiver for it. -/
example : (Document.ofText 1 "class C \x7b int x = a.; \x7d").root.subnodes.any namesItself = true := by
  decide +kernel

/-! ## Parsed texts -/

/-- A member access as the parser builds it has a receiver and another node for its name. -/
theorem access_parts {cs : List Tree} (htree : s.tree = .node .memberAccessExpression cs)
    (haccessed : Parse.Accessed .memberAccessExpression cs) :
    ∃ receiver name, s.left? = some receiver ∧ s.memberName? = some name ∧
      name.same receiver = false := by
  obtain ⟨front, dot, gap, ds, text, hcs, hfront, -⟩ := haccessed rfl
  have hchildren := map_tree_children s
  rw [htree, show (Tree.node Kind.memberAccessExpression cs).children = _ from hcs,
    List.map_eq_append_iff] at hchildren
  obtain ⟨before, behind, hsplit, hbefore, hbehind⟩ := hchildren
  obtain ⟨d, rest, rfl, -, hrest⟩ := List.map_eq_cons_iff.1 hbehind
  obtain ⟨between, last, rfl, -, hlast⟩ := List.map_eq_append_iff.1 hrest
  obtain ⟨name, others, rfl, hname, hothers⟩ := List.map_eq_cons_iff.1 hlast
  obtain rfl : others = [] := List.map_eq_nil_iff.1 hothers
  have hsplit' : s.children = (before ++ d :: between) ++ name :: [] := by
    rw [hsplit]
    simp
  -- the receiver stands before the dot
  obtain ⟨t, ht, hoperand⟩ := hfront.operand
  rw [← hbefore] at ht
  obtain ⟨operand, hmem, rfl⟩ := List.mem_map.1 ht
  obtain ⟨hnode, hexpression⟩ := Bool.and_eq_true_iff.1 hoperand
  have hoperand : operand ∈ (before.filter isNode).filter (·.kind.isExpression) :=
    List.mem_filter.2 ⟨List.mem_filter.2 ⟨hmem, hnode⟩, hexpression⟩
  obtain ⟨receiver, others, hreceiver⟩ := List.exists_cons_of_ne_nil (List.ne_nil_of_mem hoperand)
  have hreceiverMem : receiver ∈ before :=
    (List.mem_filter.1 (List.mem_filter.1 (show receiver ∈ (before.filter isNode).filter
      (·.kind.isExpression) by rw [hreceiver]; exact List.mem_cons_self)).1).1
  refine ⟨receiver, name, ?_, ?_, ?_⟩
  · rw [left?, expressions, nodes, hsplit, List.filter_append, List.filter_append, hreceiver]
    rfl
  · have hnameNode : name.isNode = true := by rw [isNode, hname]; rfl
    have hnameKind : (name.kind == .identifierName) = true := by rw [kind, hname]; rfl
    rw [memberName?, childrenOf, nodes, hsplit', List.filter_append, List.filter_cons,
      if_pos hnameNode, List.filter_append, List.filter_cons, if_pos hnameKind]
    simp
  · rw [same_comm]
    exact not_same_of_split hsplit' (List.mem_append_left _ hreceiverMem)

end Model

open Model

/-- Nodes of a text without errors have the shape that the parser gives them. -/
theorem Document.accessed_of_clean {version : Nat} {text : String}
    (hclean : (Document.ofText version text).errors = []) {s : Site}
    (hs : s ∈ (Document.ofText version text).root.subtree)
    (hkind : s.kind = .memberAccessExpression) (hnode : s.isNode = true) :
    ∃ receiver name, s.left? = some receiver ∧ s.memberName? = some name ∧
      name.same receiver = false := by
  have hevery := everyNode_of_mem.1 _ _ _ _ (parse_accessed hclean) s hs
  cases htree : s.tree with
  | token k spelling =>
      rw [isNode, htree] at hnode
      cases hnode
  | node k cs =>
      obtain rfl : k = .memberAccessExpression := by rw [← hkind, kind, htree]; rfl
      rw [htree] at hevery
      exact access_parts htree hevery.1

/-- **Lookups come to an end.**  In a text without errors, whatever is referenced and whichever node
is asked for, the lookups of its symbol, of its type and of its qualified name end, with what the
semantic model says.  A member access has a receiver and a name, which are different nodes; and
whatever the lookup of a node asks about next is a child of the whole that the node belongs to, and a
whole itself. -/
theorem Document.lookups_end {version : Nat} {text : String}
    (hclean : (Document.ofText version text).errors = []) (catalog : Catalog) :
    let d := Document.ofText version text
    let m := Model.ofDocument d catalog
    ∀ s ∈ d.root.subnodes,
      m.seek s = some (m.symbol? s) ∧
      m.seekType s = some (m.typeOfExpression? s) ∧
      spell s = some (qualified? s) ∧
      (s.kind = .memberAccessExpression → ∃ receiver name, s.left? = some receiver ∧
        s.memberName? = some name ∧ name.same receiver = false) ∧
      ∀ t, Asks s t → t ∈ (whole s).children ∧ whole t = t := by
  intro d m s hs
  have hplain : ∀ a ∈ d.root.subtree, namesItself a = false := by
    refine fun a ha => Bool.eq_false_iff.2 fun hnames => ?_
    obtain ⟨hkind, receiver, hleft, hname, -⟩ := namesItself_iff.1 hnames
    obtain ⟨receiver', name, hleft', hname', hsame⟩ :=
      accessed_of_clean hclean ha hkind (isNode_of_namesItself hnames)
    rw [Option.some.inj (hname'.symm.trans hname), Option.some.inj (hleft'.symm.trans hleft),
      same_self] at hsame
    cases hsame
  obtain ⟨hmem, hnode⟩ := List.mem_filter.1 hs
  refine ⟨seek_eq m hplain hmem, seekType_eq m hplain hmem, spell_eq s,
    fun hkind => accessed_of_clean hclean hmem hkind hnode, fun t hasks => ?_⟩
  cases hasks with
  | receiver hkind hleft =>
      obtain ⟨hwholeMem, hwholeNode⟩ : whole s ∈ d.root.subtree ∧ (whole s).isNode = true := by
        unfold whole
        cases haccess : accessOf? s with
        | none => exact ⟨hmem, hnode⟩
        | some access =>
            obtain ⟨-, hparent, -⟩ := accessOf?_eq_some haccess
            have habove := ancestors_of_parent? hparent
            refine ⟨ancestors_mem hmem (parent_mem_ancestors hparent), ?_⟩
            exact isNode_of_mem_properAncestors (s := s) (by
              rw [(List.cons.inj habove).2]; exact List.mem_cons_self)
      obtain ⟨receiver, name, hleft', hname, hsame⟩ :=
        accessed_of_clean hclean hwholeMem hkind hwholeNode
      obtain rfl : receiver = t := Option.some.inj (hleft'.symm.trans hleft)
      have halone := accessOf?_receiver hleft fun n hn => by
        rw [Option.some.inj ((Option.mem_def.1 hn).symm.trans hname), hsame]
      exact ⟨mem_children_of_left? hleft, by rw [whole, halone, Option.getD_none]⟩
  | callee hkind hleft =>
      have hwhole : whole s = s := by
        rw [whole, accessOf?_of_kind_ne (by rw [hkind]; nofun), Option.getD_none]
      rw [hwhole, whole, accessOf?_callee hkind hleft, Option.getD_none]
      exact ⟨mem_children_of_left? hleft, rfl⟩

/-- The names of a chain of accesses. -/
theorem Document.lookups_end_chain :
    let d := Document.ofText 1 "class C \x7b int x = System.Text.Rune.Max(1).Value; \x7d"
    let m := Model.ofDocument d .standard
    (∃ s ∈ d.root.subnodes, s.kind = .memberAccessExpression) ∧
      ∀ s ∈ d.root.subnodes, m.seek s = some (m.symbol? s) := by
  intro d m
  exact ⟨by decide +kernel, fun s hs => (lookups_end (by decide +kernel) .standard s hs).1⟩

end CodeMend
