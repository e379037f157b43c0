import Mathlib.Data.List.Pairwise
import Mathlib.Data.List.TakeWhile

/-!
# Rows in order

What can be said of a row of which any two entries are related, the one further left to the one
further right: two different entries are related one way or the other, and a test that holds up to
some point of the row cuts it there.
-/

namespace CodeMend

variable {α : Type} {R : α → α → Prop} {p q : α → Bool} {l : List α}

theorem related_of_ne (h : l.Pairwise R) {a b : α} (ha : a ∈ l) (hb : b ∈ l) (hne : a ≠ b) :
    R a b ∨ R b a := by
  have : Std.Symm (fun a b => R a b ∨ R b a) := ⟨fun _ _ => Or.symm⟩
  exact (h.imp Or.inl : l.Pairwise (fun a b => R a b ∨ R b a)).forall ha hb hne

/-! ## Tests that hold up to some point -/

/-- A test that holds up to some point splits a list there. -/
theorem filter_append_filter_not
    (h : l.Pairwise (fun a b => q b = true → q a = true)) :
    l.filter q ++ l.filter (fun t => !q t) = l := by
  induction l with
  | nil => rfl
  | cons a l ih =>
      obtain ⟨hfirst, hrest⟩ := List.pairwise_cons.1 h
      by_cases ha : q a = true
      · simpa [ha] using ih hrest
      · have hnone : l.filter q = [] := List.filter_eq_nil_iff.2 fun b hb hq => ha (hfirst b hb hq)
        simpa [ha, hnone] using ih hrest

/-- Where a test that holds of an element holds of all before it, the elements that pass are a
stretch at the front. -/
theorem takeWhile_eq_filter (h : l.Pairwise (fun a b => q b = true → q a = true)) :
    l.takeWhile q = l.filter q := by
  induction l with
  | nil => rfl
  | cons a l ih =>
      obtain ⟨hfirst, hrest⟩ := List.pairwise_cons.1 h
      by_cases ha : q a = true
      · rw [List.takeWhile_cons_of_pos ha, List.filter_cons_of_pos ha, ih hrest]
      · have hnone : l.filter q = [] := List.filter_eq_nil_iff.2 fun b hb hq => ha (hfirst b hb hq)
        rw [List.takeWhile_cons_of_neg ha, List.filter_cons_of_neg ha, hnone]

theorem takeWhile_isPrefix_filter (p : α → Bool) (l : List α) : l.takeWhile p <+: l.filter p := by
  have hall : (l.takeWhile p).filter p = l.takeWhile p :=
    List.filter_eq_self.2 fun a ha => List.mem_takeWhile_imp ha
  have hprefix : (l.takeWhile p).filter p <+: l.filter p := (List.takeWhile_prefix p).filter p
  rwa [hall] at hprefix

/-- What stops a walk is not passed. -/
theorem mem_of_mem_takeWhile_append {a b : α} {m : List α} (hb : p b = false)
    (ha : a ∈ (l ++ b :: m).takeWhile p) : a ∈ l := by
  induction l with
  | nil => simp [hb] at ha
  | cons c l ih =>
      by_cases hc : p c = true
      · rw [List.cons_append, List.takeWhile_cons_of_pos hc] at ha
        rcases List.mem_cons.1 ha with rfl | ha
        · exact List.mem_cons_self
        · exact List.mem_cons_of_mem c (ih ha)
      · rw [List.cons_append, List.takeWhile_cons_of_neg hc] at ha
        cases ha

/-- A walk that goes on as far as a test holds finds all that pass the test. -/
theorem filter_takeWhile_eq (h : l.Pairwise (fun a b => q b = true → q a = true))
    (hpq : ∀ a ∈ l, q a = true → p a = true) : (l.takeWhile p).filter q = (l.filter p).filter q :=
  calc (l.takeWhile p).filter q
      = (l.takeWhile p).takeWhile q :=
        (takeWhile_eq_filter (h.sublist (List.takeWhile_sublist p))).symm
    _ = l.filter (fun a => q a && p a) := by
        rw [List.takeWhile_takeWhile]
        simp only [Bool.decide_and, Bool.decide_eq_true]
        refine takeWhile_eq_filter (h.imp_of_mem fun {a b} ha _ hab hb => ?_)
        have hq : q a = true := hab (Bool.and_eq_true_iff.1 hb).1
        rw [hq, hpq a ha hq]
        rfl
    _ = (l.filter p).filter q := by rw [List.filter_filter]

end CodeMend
