import CodeMend.Proofs.Semantic.MemberValue

/-!
# Members of an enumeration by their names

A name in the value of a member of an enumeration refers to the member of that name in the same
enumeration, whatever else has the name: no variable is in scope there, and the innermost type comes
first (`Revaluing.symbol_of_name`).

So if the value of a member becomes the name of another member with the same value, all values stay as
they are, unless the other one depends on the member itself (`MemberEdit.constants_eq_iff`).
-/

namespace CodeMend

open Site Tree Relation

/-! ## Looking up a member -/

theorem find_eq_of_unique {α : Type} {p : α → Bool} {xs : List α} {x : α} (hx : x ∈ xs)
    (hp : p x = true) (hunique : ∀ y ∈ xs, p y = true → y = x) : xs.find? p = some x := by
  cases hfind : xs.find? p with
  | none => exact absurd hp (List.find?_eq_none.1 hfind x hx)
  | some y => rw [hunique y (List.mem_of_find?_eq_some hfind) (List.find?_some hfind)]

/-- Of members with one name the first one counts. -/
theorem Member.find_firstOfEach (ms : List Member) (name : String) :
    (Member.firstOfEach ms).find? (·.symbol.name == name) = ms.find? (·.symbol.name == name) := by
  induction ms with
  | nil => rfl
  | cons m ms ih =>
      rw [Member.firstOfEach, List.find?_cons, List.find?_cons]
      cases hm : m.symbol.name == name with
      | true => rfl
      | false =>
          rw [← ih, List.find?_filter]
          refine congrArg (List.find? · _) (funext fun e => ?_)
          have hne : m.symbol.name ≠ name := beq_eq_false_iff_ne.1 hm
          by_cases he : e.symbol.name = name
          · simp [he, hne.symm]
          · simp [he]

/-- What an enumeration whose members have distinct names declares. -/
theorem Site.exists_declared {enum s : Site} {type name : String}
    (hkind : enum.kind = .enumDeclaration) (htype : enum.identText? = some type)
    (hdistinct : (enum.enumMembers.map identText?).Nodup) (hs : s ∈ enum.enumMembers)
    (hname : s.identText? = some name) :
    ∃ declared member, enum.declaredType? = some declared ∧
      declared.symbol.declaration = some enum.span ∧ declared.member? name = some member ∧
      member.symbol.isConst = true ∧ member.symbol.declaration = some s.span := by
  obtain ⟨member, hmember, hmemberName, hconst, hspan⟩ : ∃ member, s.enumMember? type = some member ∧
      member.symbol.name = name ∧ member.symbol.isConst = true ∧
      member.symbol.declaration = some s.span := by
    unfold enumMember?
    rw [hname]
    exact ⟨_, rfl, rfl, rfl, rfl⟩
  have hfind : (enum.enumMembers.filterMap (enumMember? type)).find? (·.symbol.name == name) =
      some member := by
    refine find_eq_of_unique (List.mem_filterMap.2 ⟨s, hs, hmember⟩) (beq_iff_eq.2 hmemberName) ?_
    intro e he hfit
    obtain ⟨r, hr, hre⟩ := List.mem_filterMap.1 he
    have hsame : r.identText? = s.identText? := by
      obtain ⟨other, hother, rfl⟩ := Option.map_eq_some_iff.1 hre
      rw [hother, hname]
      exact congrArg some (beq_iff_eq.1 hfit)
    obtain rfl := List.inj_on_of_nodup_map hdistinct hr hs hsame
    exact Option.some.inj (hre.symm.trans hmember)
  unfold declaredType?
  rw [hkind, htype]
  exact ⟨_, member, rfl, rfl, (Member.find_firstOfEach _ name).trans hfind, hconst, hspan⟩

section Clean

variable {version : Nat} {text : String} {s : Site}

/-- A type in a text without complaints has a name. -/
theorem Document.identText_of_type (hclean : (Document.ofText version text).errors = [])
    (hs : s ∈ (Document.ofText version text).root.subnodes)
    (htype : s.kind.isTypeDeclaration = true) : ∃ name, s.identText? = some name := by
  obtain ⟨hmem, hnode⟩ := List.mem_filter.1 hs
  have hshaped : s.tree.EveryNode Parse.Shaped :=
    everyNode_of_mem.1 _ _ _ _ (parse_shaped hclean) s hmem
  obtain ⟨spelling, hident⟩ : ∃ spelling, .token .ident spelling ∈ s.tree.children := by
    obtain ⟨tree, start, above, origin⟩ := s
    cases tree with
    | token k spelling => cases hnode
    | node k cs =>
        have hkind : k = .classDeclaration ∨ k = .structDeclaration ∨ k = .interfaceDeclaration ∨
            k = .enumDeclaration := by
          have htype : k.isTypeDeclaration = true := htype
          unfold Kind.isTypeDeclaration at htype
          split at htype <;> simp at htype ⊢
        rcases hkind with rfl | rfl | rfl | rfl <;> exact hshaped.1.2
  rw [identText?_eq]
  cases hfind : (s.tree.children.filter Tree.isToken).find? (·.kind == .ident) with
  | some t => exact ⟨_, rfl⟩
  | none => exact absurd rfl (List.find?_eq_none.1 hfind _ (List.mem_filter.2 ⟨hident, rfl⟩))

/-- A type is found at its place. -/
theorem Document.typeAt_eq (hclean : (Document.ofText version text).errors = []) (catalog : Catalog)
    (hs : s ∈ (Document.ofText version text).root.subnodes) {declared : DeclaredType}
    (hdeclared : s.declaredType? = some declared)
    (hspan : declared.symbol.declaration = some s.span) (htype : s.kind.isTypeDeclaration = true) :
    (Model.ofDocument (.ofText version text) catalog).typeAt? s = some declared := by
  refine find_eq_of_unique (List.mem_filterMap.2 ⟨s, hs, hdeclared⟩) (beq_iff_eq.2 hspan) ?_
  intro other hother hplace
  obtain ⟨r, hr, hrDeclared⟩ := List.mem_filterMap.1 hother
  obtain ⟨hrType, hrSpan⟩ : r.kind.isTypeDeclaration = true ∧
      other.symbol.declaration = some r.span := by
    unfold declaredType? at hrDeclared
    cases hrType : r.kind.isTypeDeclaration with
    | false => simp [hrType] at hrDeclared
    | true =>
        cases hrName : r.identText? with
        | none => simp [hrType, hrName] at hrDeclared
        | some name =>
            simp only [hrType, hrName] at hrDeclared
            obtain rfl := Option.some.inj hrDeclared
            exact ⟨rfl, rfl⟩
  have hnamed {t : Site} (ht : t ∈ (Document.ofText version text).root.subnodes)
      (htype : t.kind.isTypeDeclaration = true) : t.Named :=
    Document.named_type hclean (List.mem_filter.1 ht).1 (List.mem_filter.1 ht).2 htype
  have heq : r = s := by
    refine Named.eq_of_span_eq (List.mem_filter.1 hr).1 (List.mem_filter.1 hs).1 (hnamed hr hrType)
      (hnamed hs htype) ?_
    rw [beq_iff_eq.1 hplace] at hrSpan
    exact (Option.some.inj hrSpan).symm
  rw [heq] at hrDeclared
  exact Option.some.inj (hrDeclared.symm.trans hdeclared)

end Clean

/-! ## A name in the value of a member -/

section Value

variable {clause member enum s : Site}

/-- The sites above the value of a member. -/
theorem Site.above_value (hclause : s.parent? = some clause) (hmember : clause.parent? = some member)
    (henum : member.parent? = some enum) :
    s.properAncestors = clause :: member :: enum :: enum.properAncestors := by
  rw [properAncestors_of_parent? hclause, properAncestors_of_parent? hmember,
    properAncestors_of_parent? henum]

/-- No variable is in scope in the value of a member. -/
theorem Site.visible_value (hclause : s.parent? = some clause)
    (hclauseKind : clause.kind = .equalsValueClause) (hmember : clause.parent? = some member)
    (hmemberKind : member.kind = .enumMemberDeclaration) (henum : member.parent? = some enum)
    (henumKind : enum.kind = .enumDeclaration) (name : String) : s.visible? name = none := by
  rw [visible?, above_value hclause hmember henum]
  simp [variableThrough?, variableIn?, hclauseKind, hmemberKind, henumKind,
    Kind.isTypeDeclaration]

/-- A simple name in the value of a member is looked up in the enumeration first. -/
theorem Model.symbol_of_value {m : Model} {name : String} (hkind : s.kind = .identifierName)
    (hname : s.identText? = some name) (hclause : s.parent? = some clause)
    (hclauseKind : clause.kind = .equalsValueClause) (hmember : clause.parent? = some member)
    (hmemberKind : member.kind = .enumMemberDeclaration) (henum : member.parent? = some enum)
    (henumKind : enum.kind = .enumDeclaration) {declared : DeclaredType}
    (hdeclared : m.typeAt? enum = some declared) {found : Member}
    (hfound : declared.member? name = some found) : m.symbol? s = some found.symbol := by
  have haccess : accessOf? s = none := by
    rw [accessOf?, hkind, hclause]
    simp [hclauseKind]
  have htypes : (s.ancestors.filter (·.kind.isTypeDeclaration)).filterMap m.typeAt? =
      declared :: (enum.properAncestors.filter (·.kind.isTypeDeclaration)).filterMap m.typeAt? := by
    have hancestors : s.ancestors = s :: clause :: member :: enum :: enum.properAncestors := by
      rw [← above_value hclause hmember henum]
      rfl
    rw [hancestors]
    simp [hkind, hclauseKind, hmemberKind, henumKind, Kind.isTypeDeclaration, hdeclared]
  rw [symbol?, haccess, Option.getD_none, referent?]
  simp only [hkind, hname, Option.bind_some, nameAt?]
  rw [visible_value hclause hclauseKind hmember hmemberKind henum henumKind, htypes]
  simp [hfound]

end Value

namespace Revaluing

variable {m m' : Model} (R : Revaluing m m')

/-- **A name in the new value of the member refers to the member of that name in its enumeration.** -/
theorem symbol_of_name {value clause enum other other' : Site} {name : String}
    (hkind : value.kind = .identifierName) (hname : value.identText? = some name)
    (hclause : value.parent? = some clause) (hclauseKind : clause.kind = .equalsValueClause)
    (hmember : clause.parent? = some R.member') (henum : R.member.parent? = some enum)
    (henumKind : enum.kind = .enumDeclaration) {declared : DeclaredType}
    (hdeclared : m.typeAt? enum = some declared) {found : Member}
    (hfound : declared.member? name = some found) (hconst : found.symbol.isConst = true)
    (hother : other ∈ m.root.subnodes) (hotherKind : Model.isConstantNode other = true)
    (hdeclaration : found.symbol.declaration = some other.span) (hrel : R.rel other other') :
    ∃ symbol, m'.symbol? value = some symbol ∧ symbol.isConst = true ∧
      symbol.declaration = some other'.span := by
  have hparent := R.parent_matched R.member_rel
  rw [henum] at hparent
  generalize henum' : R.member'.parent? = x at hparent
  cases hparent with
  | @some _ enum' henumRel =>
      have henumNode : enum.isNode = true :=
        isNode_of_mem_properAncestors (by rw [← properAncestors_head?] at henum; exact List.mem_of_head? henum)
      have htypeAt := R.typeAt_matched henumRel
        (by rw [Site.isType, henumNode, henumKind]; rfl)
      rw [hdeclared] at htypeAt
      generalize hdeclared' : m'.typeAt? enum' = y at htypeAt
      cases htypeAt with
      | @some _ declared' htypes =>
          have hmatched := R.member_matched htypes (R.none_fresh name)
          rw [hfound] at hmatched
          generalize hfound' : declared'.member? name = z at hmatched
          cases hmatched with
          | @some _ found' hmembers =>
              refine ⟨found'.symbol, ?_, hmembers.symbol.isConst ▸ hconst, ?_⟩
              · exact Model.symbol_of_value hkind hname hclause hclauseKind hmember
                  ((R.kind_eq R.member_rel).symm.trans R.member_kind) henum'
                  ((R.kind_eq henumRel).symm.trans henumKind) hdeclared' hfound'
              · have hplaces := hmembers.symbol.declaration
                rw [hdeclaration] at hplaces
                generalize found'.symbol.declaration = p at hplaces ⊢
                cases hplaces with
                | @some _ q hdeclares =>
                    obtain ⟨n, n', hn, hnode, hspan, rfl, hconstant⟩ := hdeclares
                    have hmem : n ∈ m.root.subnodes := List.mem_filter.2 ⟨(R.mem hn).1, hnode⟩
                    obtain rfl := R.identify other hother n hmem hotherKind (hconstant hconst) hspan
                    rw [R.rel_left_unique hn hrel]

end Revaluing

/-! ## Values after the edit -/

namespace MemberEdit

variable {version : Nat} {text : String} {d' : Document} {member value : Site} {new : Tree}
  (E : MemberEdit version text d' member value new) (catalog : Catalog)

include E

/-- Sites that correspond have the same constant if they have the same values. -/
theorem constant_eq_iff {R : Revaluing (.ofDocument (.ofText version text) catalog)
    (.ofDocument d' catalog)} {s s' : Site} (h : R.rel s s') (hnode : s.isNode = true) :
    (Model.ofDocument (.ofText version text) catalog).constant? s =
        (Model.ofDocument d' catalog).constant? s' ↔
      ∀ v, (Model.ofDocument (.ofText version text) catalog).HasValue s v ↔
        (Model.ofDocument d' catalog).HasValue s' v := by
  have hs := fun v => Model.constant_iff (v := v) (Document.wellPlaced E.clean catalog)
    (List.mem_filter.2 ⟨(R.mem h).1, hnode⟩)
  have hs' := fun v => Model.constant_iff (v := v) (E.wellPlaced catalog)
    (List.mem_filter.2 ⟨(R.mem h).2, (R.isNode_eq h).symm.trans hnode⟩)
  rw [Option.ext_iff]
  exact forall_congr' fun v => by rw [hs, hs']

end MemberEdit

/-- The constants of all members of enumerations, in the order of the text. -/
def Document.memberConstants (d : Document) (catalog : Catalog) : List (Option Constant) :=
  (d.root.subnodes.filter (·.kind == .enumMemberDeclaration)).map (Model.ofDocument d catalog).constant?

theorem Site.mem_of_enumMembers {root enum s : Site} (henum : enum ∈ root.subnodes)
    (hs : s ∈ enum.enumMembers) :
    s ∈ root.subnodes ∧ s.kind = .enumMemberDeclaration ∧ s.parent? = some enum := by
  obtain ⟨hnodes, hkind⟩ := List.mem_filter.1 hs
  obtain ⟨hchild, hnode⟩ := List.mem_filter.1 hnodes
  refine ⟨List.mem_filter.2 ⟨?_, hnode⟩, beq_iff_eq.1 hkind, parent?_of_mem_children hchild⟩
  exact mem_subtree_child (List.mem_filter.1 henum).1 hchild

namespace MemberEdit

variable {version : Nat} {text name : String} {d' : Document} {member value enum other : Site}
  (E : MemberEdit version text d' member value (.node .identifierName [.token .ident name]))
  (catalog : Catalog) (henum : enum ∈ (Document.ofText version text).root.subnodes)
  (henumKind : enum.kind = .enumDeclaration) (hdistinct : (enum.enumMembers.map identText?).Nodup)
  (hmember : member ∈ enum.enumMembers) (hother : other ∈ enum.enumMembers)
  (hname : other.identText? = some name)

include E henum henumKind hdistinct hmember hother hname

/-- A member whose value becomes the name of another one uses this one and has its value. -/
theorem exists_naming :
    ∃ (R : Revaluing (.ofDocument (.ofText version text) catalog) (.ofDocument d' catalog))
      (other' : Site), R.member = member ∧ R.rel other other' ∧
      List.Forall₂ R.rel
        ((Document.ofText version text).root.subnodes.filter (·.kind == .enumMemberDeclaration))
        (d'.root.subnodes.filter (·.kind == .enumMemberDeclaration)) ∧
      TransGen (Model.Uses (.ofDocument d' catalog)) R.member' other' ∧
      ∀ v, (Model.ofDocument d' catalog).HasValue other' v →
        (Model.ofDocument d' catalog).HasValue R.member' v := by
  obtain ⟨R, rfl, hpairs, value', clause', hvalue', htree, hclause, hclauseKind, hparent⟩ :=
    E.exists_revaluing catalog
  obtain ⟨hotherMem, hotherKind, -⟩ := mem_of_enumMembers henum hother
  obtain ⟨other', hother', hrel⟩ := exists_of_mem_left hpairs
    (List.mem_filter.2 ⟨hotherMem, beq_iff_eq.2 hotherKind⟩)
  have hotherNode' : other' ∈ d'.root.subnodes := (List.mem_filter.1 hother').1
  have hconstant : Model.isConstantNode other = true := by simp [Model.isConstantNode, hotherKind]
  have hconstant' : Model.isConstantNode other' = true := by
    unfold Model.isConstantNode at hconstant ⊢
    rwa [← R.kind_eq hrel]
  have hkind' : value'.kind = .identifierName := congrArg Tree.kind htree
  have hname' : value'.identText? = some name := by
    rw [identText?_eq, htree]
    rfl
  obtain ⟨symbol, hsymbol, hconst, hspan⟩ : ∃ symbol,
      (Model.ofDocument d' catalog).symbol? value' = some symbol ∧ symbol.isConst = true ∧
        symbol.declaration = some other'.span := by
    have htypeKind : enum.kind.isTypeDeclaration = true := by rw [henumKind]; rfl
    obtain ⟨type, htype⟩ := Document.identText_of_type E.clean henum htypeKind
    obtain ⟨declared, found, hdeclared, hplace, hfound, hconst, hspan⟩ :=
      exists_declared henumKind htype hdistinct hother hname
    exact R.symbol_of_name hkind' hname' hclause hclauseKind hparent
      (mem_of_enumMembers henum hmember).2.2 henumKind
      (Document.typeAt_eq E.clean catalog henum hdeclared hplace htypeKind) hfound hconst hotherMem
      hconstant hspan hrel
  have hisName : Model.isName value' = true := by simp [Model.isName, hkind']
  have hmemberKind' : R.member'.kind = .enumMemberDeclaration :=
    (R.kind_eq R.member_rel).symm.trans R.member_kind
  refine ⟨R, other', rfl, hrel, hpairs, ?_, fun v hv => ?_⟩
  · exact .head (.member hmemberKind' hvalue')
      (.single (.name hisName hsymbol hconst hotherNode' hconstant' hspan))
  · exact .of_gives (.member hmemberKind' hvalue'
      (.of_gives (.name hisName hsymbol hconst hotherNode' hconstant' hspan hv)))

/-- **Naming a member with the same value.**  If the value of a member becomes the name of another
member of its enumeration with the same value, all members of all enumerations keep their constants if
and only if the other member does not depend on the first one. -/
theorem constants_eq_iff {v : Constant}
    (hvalue : (Model.ofDocument (.ofText version text) catalog).constant? member = some v)
    (hotherValue : (Model.ofDocument (.ofText version text) catalog).constant? other = some v) :
    (Document.ofText version text).memberConstants catalog = d'.memberConstants catalog ↔
      ¬ (Model.ofDocument (.ofText version text) catalog).DependsOn other member := by
  obtain ⟨R, other', rfl, hrel, hpairs, huses, hgiven⟩ :=
    E.exists_naming catalog henum henumKind hdistinct hmember hother hname
  have hwell := Document.wellPlaced E.clean catalog
  obtain ⟨hmemberMem, hmemberKind, -⟩ := mem_of_enumMembers henum hmember
  have hmemberHas := (Model.constant_iff hwell hmemberMem).1 hvalue
  have hotherHas := (Model.constant_iff hwell (mem_of_enumMembers henum hother).1).1 hotherValue
  constructor
  · intro hsame hdepends
    -- the member and the other one now depend on each other, so the member has no value
    have hcycle : TransGen (Model.Uses (.ofDocument d' catalog)) R.member' R.member' :=
      huses.trans_left (R.dependsOn hrel hdepends)
    obtain ⟨member', -, hmember', heq⟩ := exists_of_mem_left (matched_of_map_list_eq hsame hpairs)
      (List.mem_filter.2 ⟨hmemberMem, beq_iff_eq.2 hmemberKind⟩)
    rw [R.rel_left_unique hmember' R.member_rel] at heq
    have hsame := (E.constant_eq_iff catalog R.member_rel (List.mem_filter.1 hmemberMem).2).1 heq v
    exact Model.not_hasValue_of_cycle R.identify' hcycle (hsame.1 hmemberHas)
  · intro hdepends
    have hmemberHas' := hgiven v ((R.hasValue_iff_of_not_dependsOn hrel hdepends).1 hotherHas)
    refine map_list_eq_of_matched (fun s s' hs => ?_) (forall₂_mem hpairs)
    obtain ⟨hs, hmem, -⟩ := hs
    have hnode := (List.mem_filter.1 (List.mem_filter.1 hmem).1).2
    exact (E.constant_eq_iff catalog hs hnode).2 fun w =>
      R.hasValue_iff_of_same hmemberHas hmemberHas' hs

end MemberEdit

/-- **Another value that does not depend on names.**  The member gets the value of its new expression,
and every member that does not depend on it keeps its constant. -/
theorem MemberEdit.constants_matched {version : Nat} {text : String} {d' : Document}
    {member value : Site} {new : Tree} (E : MemberEdit version text d' member value new)
    (catalog : Catalog) {v : Constant}
    (hnew : ∀ s : Site, s.tree = new → (Model.ofDocument d' catalog).HasValue s v) :
    List.Forall₂ (fun s s' =>
      (s = member → (Model.ofDocument d' catalog).constant? s' = some v) ∧
        (¬ (Model.ofDocument (.ofText version text) catalog).DependsOn s member →
          (Model.ofDocument d' catalog).constant? s' =
            (Model.ofDocument (.ofText version text) catalog).constant? s))
      ((Document.ofText version text).root.subnodes.filter (·.kind == .enumMemberDeclaration))
      (d'.root.subnodes.filter (·.kind == .enumMemberDeclaration)) := by
  obtain ⟨R, rfl, hpairs, value', clause', hvalue', htree, -⟩ := E.exists_revaluing catalog
  refine (forall₂_mem hpairs).imp fun s s' ⟨hs, hmem, hmem'⟩ => ⟨?_, fun hdepends => ?_⟩
  · rintro rfl
    obtain rfl := R.rel_left_unique hs R.member_rel
    refine (Model.constant_iff (E.wellPlaced catalog) (List.mem_filter.1 hmem').1).2 ?_
    exact .of_gives (.member ((R.kind_eq R.member_rel).symm.trans R.member_kind) hvalue'
      (hnew value' htree))
  · have hnode := (List.mem_filter.1 (List.mem_filter.1 hmem).1).2
    exact ((E.constant_eq_iff catalog hs hnode).2 fun w =>
      R.hasValue_iff_of_not_dependsOn hs hdepends).symm

end CodeMend
