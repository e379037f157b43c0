import CodeMend.Proofs.Semantic.Carrying

/-!
# Another value for one member

A `Revaluing` is a matching of two models that differ in the value of one member of an enumeration.
Nodes that do not depend on this member keep their values (`hasValue_iff_of_not_dependsOn`), and if
the member has the same value in both models, all nodes do (`hasValue_iff_of_same`).
-/

namespace CodeMend

open Relation

namespace Matching

variable {m m' : Model} (M : Matching m m')

theorem rel_right_unique {a b c : Site} (ha : M.rel a c) (hb : M.rel b c) : a = b := by
  have hsame := M.same_eq ha hb
  rw [Site.same_self] at hsame
  exact (Site.same_iff (M.mem ha).1 (M.mem hb).1).1 hsame

theorem rel_left_unique {a b c : Site} (hb : M.rel a b) (hc : M.rel a c) : b = c := by
  have hsame := M.same_eq hb hc
  rw [Site.same_self] at hsame
  exact (Site.same_iff (M.mem hb).2 (M.mem hc).2).1 hsame.symm

theorem isType_eq {a b : Site} (h : M.rel a b) : a.isType = b.isType := by
  rw [Site.isType, Site.isType, M.isNode_eq h, M.kind_eq h]

/-- The matching the other way round. -/
def symm : Matching m' m where
  rel s s' := M.rel s' s
  exempt s := ∃ r, M.rel r s ∧ M.exempt r
  fresh := M.fresh
  exempt_cases := by
    rintro s ⟨r, hrel, hexempt⟩
    rw [← M.kind_eq hrel]
    exact M.exempt_cases hexempt
  catalog_eq := M.catalog_eq.symm
  types_eq := M.types_eq'
  types_eq' := M.types_eq
  mem h := (M.mem h).symm
  kind_eq h := (M.kind_eq h).symm
  isNode_eq h := (M.isNode_eq h).symm
  text_eq h htoken := (M.text_eq h ((M.isToken_eq h).trans htoken)).symm
  typeText_eq h hkind := (M.typeText_eq h ((M.kind_eq h).trans hkind)).symm
  ident_eq := by
    rintro s s' h ⟨r, hrel, hexempt⟩
    obtain rfl := M.rel_right_unique h hrel
    exact (M.ident_eq h hexempt).symm
  children := by
    intro s s' h hexempt
    exact (M.children h fun hs => hexempt ⟨s', h, hs⟩).flip
  grown := by
    rintro s s' h ⟨r, hrel, hexempt⟩ hkind
    obtain rfl := M.rel_right_unique h hrel
    exact (M.grown h hexempt ((M.kind_eq h).trans hkind)).flip
  unused h hkind hname :=
    M.unused h ((M.kind_eq h).trans hkind) ((M.identText_eq h).trans hname)
  parent h hp hblock hsection := M.parent' h hp hblock hsection
  parent' h hp hblock hsection := M.parent h hp hblock hsection
  around h := (M.around h).flip
  declared := M.declared.flip
  same_eq ha hb := (M.same_eq ha hb).symm
  span_iff ha hb haType hbType :=
    (M.span_iff ha hb (by rwa [M.isType_eq ha]) (by rwa [M.isType_eq hb])).symm
  solid h hunit hend :=
    (M.solid h (by rwa [M.kind_eq h]) (by rwa [M.kind_eq h])).symm
  order ha hb hwidth hwidth' := (M.order ha hb hwidth.symm hwidth'.symm).symm

end Matching

/-- The matching the other way round, along which values carry over as well. -/
def Carrying.symm {m m' : Model} (C : Carrying m m') : Carrying m' m where
  toMatching := C.toMatching.symm
  unshared := by
    rintro s ⟨r, hrel, hexempt⟩ hkind
    exact C.unshared hexempt ((C.kind_eq hrel).trans hkind)
  above h := (C.above h).flip
  firstToken_eq h := (C.firstToken_eq h).symm
  previous h hkind := by
    have hprevious := C.previous h ((C.kind_eq h).trans hkind)
    generalize Model.previousMember? _ = x at hprevious ⊢
    generalize Model.previousMember? _ = y at hprevious ⊢
    cases hprevious with
    | none => exact .none
    | some hrel => exact .some hrel
  identify := C.identify'
  identify' := C.identify

/-- A matching of models that differ in the value of one member of an enumeration. -/
structure Revaluing (m m' : Model) extends Carrying m m' where
  member : Site
  member' : Site
  member_rel : rel member member'
  member_kind : member.kind = .enumMemberDeclaration
  eq_of_exempt : ∀ {s}, exempt s → s = member
  none_fresh : ∀ name, fresh name = false

namespace Revaluing

open Model Site Matching

variable {m m' : Model} (R : Revaluing m m') {s s' : Site}

theorem rel_member_iff (h : R.rel s s') : s = R.member ↔ s' = R.member' := by
  constructor
  · rintro rfl
    exact R.rel_left_unique h R.member_rel
  · rintro rfl
    exact R.rel_right_unique h R.member_rel

/-- The revaluing the other way round. -/
def symm : Revaluing m' m where
  toCarrying := R.toCarrying.symm
  member := R.member'
  member' := R.member
  member_rel := R.member_rel
  member_kind := (R.kind_eq R.member_rel).symm.trans R.member_kind
  eq_of_exempt := by
    rintro s ⟨r, hrel, hexempt⟩
    exact (R.rel_member_iff hrel).1 (R.eq_of_exempt hexempt)
  none_fresh := R.none_fresh

theorem not_exempt_of_ne (hne : s ≠ R.member) : ¬ R.exempt s := fun h => hne (R.eq_of_exempt h)

/-- What depends on the member does so after the edit: the way of references is the same. -/
theorem dependsOn (h : R.rel s s') (hs : m.DependsOn s R.member) :
    m'.DependsOn s' R.member' := by
  induction hs using ReflTransGen.head_induction_on generalizing s' with
  | refl =>
      obtain rfl := R.rel_left_unique h R.member_rel
      exact .refl
  | @head s e huses _ ih =>
      by_cases hmember : s = R.member
      · rw [(R.rel_member_iff h).1 hmember]
        exact .refl
      · obtain ⟨e', hrel, huses'⟩ := R.uses h (R.not_exempt_of_ne hmember) huses
        exact .head huses' (ih hrel)

/-- Away from what depends on the member, derivations carry over at the same height. -/
theorem derives_of_not_dependsOn (h : R.rel s s') (hs : ¬ m.DependsOn s R.member) {height : Nat}
    {v : Constant} (hv : Derives m height s v) : Derives m' height s' v := by
  induction height generalizing s s' v with
  | zero => exact hv.elim
  | succ height ih =>
      have hne : s ≠ R.member := by
        rintro rfl
        exact hs .refl
      refine R.gives (V := Derives m height) h (R.not_exempt_of_ne hne) (fun e e' w huses hrel hw => ?_) hv
      exact ih hrel (fun he => hs (.head huses he)) hw

/-- **Nodes that do not depend on the member keep their values.** -/
theorem hasValue_iff_of_not_dependsOn (h : R.rel s s') (hs : ¬ m.DependsOn s R.member)
    {v : Constant} : m.HasValue s v ↔ m'.HasValue s' v := by
  constructor
  · rintro ⟨height, hv⟩
    exact ⟨height, R.derives_of_not_dependsOn h hs hv⟩
  · rintro ⟨height, hv⟩
    have hs' : ¬ m'.DependsOn s' R.member' := fun hs' => hs (R.symm.dependsOn h hs')
    exact ⟨height, R.symm.derives_of_not_dependsOn h hs' hv⟩

/-- If the member keeps its value, every value carries over. -/
theorem hasValue_of_same {u : Constant} (hu : m.HasValue R.member u)
    (hu' : m'.HasValue R.member' u) (h : R.rel s s') {v : Constant} (hv : m.HasValue s v) :
    m'.HasValue s' v := by
  obtain ⟨height, hv⟩ := hv
  induction height generalizing s s' v with
  | zero => exact hv.elim
  | succ height ih =>
      by_cases hmember : s = R.member
      · obtain ⟨other, hu⟩ := hu
        rw [(R.rel_member_iff h).1 hmember]
        rw [hmember] at hv
        rwa [hv.unique R.identify hu]
      · refine .of_gives (R.gives (V := Derives m height) h (R.not_exempt_of_ne hmember) (fun e e' w _ hrel hw => ?_) hv)
        exact ih hrel hw

/-- **If the member has the same value in both models, all nodes do.** -/
theorem hasValue_iff_of_same {u : Constant} (hu : m.HasValue R.member u)
    (hu' : m'.HasValue R.member' u) (h : R.rel s s') {v : Constant} :
    m.HasValue s v ↔ m'.HasValue s' v :=
  ⟨R.hasValue_of_same hu hu' h, R.symm.hasValue_of_same hu' hu h⟩

end Revaluing

end CodeMend
