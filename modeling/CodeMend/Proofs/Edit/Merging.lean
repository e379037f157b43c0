import CodeMend.Proofs.Edit.Batch
import Mathlib.Data.List.Perm.Basic

/-!
# Merged patches in any order

Patches for one document can be gathered in any order: merged and applied they give the same
outcome, the same document and annotations or the same refusal.

The splices are sorted by their spans, and sorting keeps splices with one span in the order in which
they are listed, so the order of the patches could show in two ways.  It cannot show in a refusal,
since the checks look at nothing but the row of spans, and sorted spans are one row
(`sort_map_span`).  It cannot show in an outcome either: two splices with one span always clash, so
where nothing clashes the sorted splices themselves are one row (`sort_eq_of_perm`).
-/

namespace CodeMend

namespace Patch

/-- Spans that come before each other are the same. -/
theorem spanLE_antisymm {a b : Span} (hab : spanLE a b = true) (hba : spanLE b a = true) :
    a = b := by
  rw [spanLE_iff] at hab hba
  obtain ⟨start, stop⟩ := a
  obtain ⟨start', stop'⟩ := b
  simp only [Span.mk.injEq]
  simp only at hab hba
  omega

/-- However the splices are listed, their spans are sorted into one row. -/
theorem sort_map_span {ss ts : List Splice} (h : ss.Perm ts) :
    (sort ss).map Splice.span = (sort ts).map Splice.span := by
  have hperm : ((sort ss).map Splice.span).Perm ((sort ts).map Splice.span) :=
    (((sort_perm ss).trans h).trans (sort_perm ts).symm).map Splice.span
  have hsorted (us : List Splice) :
      ((sort us).map Splice.span).Pairwise (fun a b => spanLE a b = true) :=
    List.pairwise_map.2 (sort_sorted us)
  exact hperm.eq_of_pairwise (fun a b _ _ => spanLE_antisymm) (hsorted ss) (hsorted ts)

/-- The first clash is a matter of the spans. -/
theorem firstClash_congr {ss ts : List Splice} (h : ss.map Splice.span = ts.map Splice.span) :
    firstClash ss = firstClash ts := by
  induction ss generalizing ts with
  | nil =>
      obtain rfl := List.map_eq_nil_iff.1 h.symm
      rfl
  | cons s ss ih =>
      obtain ⟨t, ts, rfl, hspan, hspans⟩ := List.map_eq_cons_iff.1 h.symm
      have hrest := ih hspans.symm
      cases ss with
      | nil =>
          obtain rfl := List.map_eq_nil_iff.1 hspans
          rfl
      | cons s' ss =>
          obtain ⟨t', ts, rfl, hspan', -⟩ := List.map_eq_cons_iff.1 hspans
          rw [firstClash, firstClash, hspan, hspan', hrest]

/-- A splice clashes with another of the same span. -/
theorem clash_self {a : Span} (h : a.Ordered) : clash a a = true := by
  rw [← Bool.not_eq_false, clash_eq_false_iff]
  unfold Span.Ordered at h
  omega

/-- Where nothing clashes, the splices are sorted into one row. -/
theorem sort_eq_of_perm {ss ts : List Splice} (h : ss.Perm ts)
    (hordered : ∀ s ∈ ss, s.span.Ordered) (hclash : firstClash (sort ss) = none) :
    sort ss = sort ts := by
  have hmem : ∀ s ∈ sort ss, s.span.Ordered := fun s hs =>
    hordered s ((sort_perm ss).mem_iff.1 hs)
  have hperm : (sort ss).Perm (sort ts) :=
    ((sort_perm ss).trans h).trans (sort_perm ts).symm
  have hseparate := (firstClash_eq_none_iff hmem).1 hclash
  refine hperm.eq_of_pairwise (fun s t hs ht hst hts => ?_) (sort_sorted ss) (sort_sorted ts)
  -- two different splices of one span would clash, whichever of them comes first
  have hspan : s.span = t.span := spanLE_antisymm hst hts
  by_contra hne
  have hclash : clash s.span s.span = false := by
    simpa [hspan] using related_of_ne hseparate hs (hperm.mem_iff.2 ht) hne
  rw [clash_self (hmem s hs)] at hclash
  cases hclash

/-- The checks of a patch, and the row they give, do not depend on how its splices are listed. -/
theorem validate_perm {p q : Patch} (hversion : p.version = q.version)
    (h : p.splices.Perm q.splices) (hordered : ∀ s ∈ p.splices, s.span.Ordered) (d : Document) :
    p.validate d = q.validate d := by
  have hspans := sort_map_span h
  have hclash := firstClash_congr hspans
  cases hnone : firstClash (sort p.splices) with
  | some pair => simp only [validate, ordered, hversion, ← hclash, hnone]
  | none =>
      have hsort := sort_eq_of_perm h hordered hnone
      simp only [validate, ordered, hversion, hsort]

/-- The order in which the splices of a patch are listed makes no difference. -/
theorem apply_perm {p q : Patch} (hversion : p.version = q.version)
    (h : p.splices.Perm q.splices) (hordered : ∀ s ∈ p.splices, s.span.Ordered) (d : Document)
    (stamp : Nat) : p.apply d stamp = q.apply d stamp := by
  rw [apply, apply, validate_perm hversion h hordered]

/-- Patches merged and then applied as one; without a patch there is no outcome. -/
def applyMerged (d : Document) (ps : List Patch) (stamp : Nat) :
    Except EditError (Option Outcome) := do
  match ← merge ps with
  | none => return none
  | some p => return some (← p.apply d stamp)

/-- Patches for one version merge. -/
theorem merge_cons {p : Patch} {ps : List Patch} {version : Nat}
    (h : ∀ q ∈ p :: ps, q.version = version) :
    merge (p :: ps) = .ok (some ⟨version, (p :: ps).flatMap splices⟩) := by
  have hfirst : p.version = version := h p List.mem_cons_self
  have hnone : ps.find? (fun q => q.version != p.version) = none := by
    refine List.find?_eq_none.2 fun q hq => ?_
    rw [h q (List.mem_cons_of_mem p hq), hfirst, bne_self_eq_false]
    exact Bool.false_ne_true
  rw [merge, hnone, hfirst]

/-- **Merged patches give one outcome in any order.**  Patches for one document are merged and
applied: the trees and the annotations, or the refusal, are the same for every order in which the
patches are gathered. -/
theorem applyMerged_perm {d : Document} {ps qs : List Patch} (hperm : ps.Perm qs)
    (hversion : ∀ p ∈ ps, p.version = d.version)
    (hordered : ∀ p ∈ ps, ∀ s ∈ p.splices, s.span.start ≤ s.span.stop) (stamp : Nat) :
    applyMerged d ps stamp = applyMerged d qs stamp := by
  cases ps with
  | nil => rw [List.nil_perm.1 hperm]
  | cons p ps =>
      cases qs with
      | nil => exact absurd hperm.eq_nil (List.cons_ne_nil p ps)
      | cons q qs =>
          have hversion' : ∀ r ∈ q :: qs, r.version = d.version := fun r hr =>
            hversion r (hperm.mem_iff.2 hr)
          have hsame := apply_perm (p := ⟨d.version, (p :: ps).flatMap splices⟩)
            (q := ⟨d.version, (q :: qs).flatMap splices⟩) rfl
            (hperm.flatMap_right splices) (fun s hs => ?_) d stamp
          · rw [applyMerged, applyMerged, merge_cons hversion, merge_cons hversion']
            simp only [bind, Except.bind, hsame]
          · obtain ⟨r, hr, hs⟩ := List.mem_flatMap.1 hs
            exact hordered r hr s hs

/-- A replacement and two insertions that touch it, gathered the other way round. -/
theorem applyMerged_perm_pair :
    let d : Document := ⟨.node .compilationUnit [.token .ident "a", .token .endOfFile ""], [], 1, 1⟩
    let p : Patch := ⟨1, [⟨⟨0, 1⟩, none, ⟨[.token .ident "b"], [⟨.renameTarget, ⟨0, 1⟩⟩]⟩⟩]⟩
    let q : Patch := ⟨1, [.insert 1 ⟨[.token .ident "c"], []⟩, .insert 0 ⟨[.token .ident "d"], []⟩]⟩
    [p, q].Perm [q, p] ∧ (∃ o, applyMerged d [p, q] 2 = .ok (some o)) ∧
      applyMerged d [p, q] 2 = applyMerged d [q, p] 2 :=
  ⟨.swap _ _ _, ⟨_, rfl⟩, applyMerged_perm (.swap _ _ _) (by decide) (by decide) 2⟩

end Patch

end CodeMend
