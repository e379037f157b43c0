import Mathlib.Data.List.Forall2

/-!
# Lists that correspond

Lists whose elements are related one by one, and values that are related if they are there.  What is
picked from such lists in the same way is related again.
-/

namespace CodeMend

variable {α β γ δ : Type} {R : α → β → Prop} {S : γ → δ → Prop} {xs : List α} {ys : List β}

/-- Filters by tests that agree on related elements keep related ones. -/
theorem filter_matched {p : α → Bool} {q : β → Bool} (hpq : ∀ a b, R a b → p a = q b)
    (h : List.Forall₂ R xs ys) : List.Forall₂ R (xs.filter p) (ys.filter q) := by
  induction h with
  | nil => exact .nil
  | @cons a b xs ys hab _ ih =>
      have hp := hpq a b hab
      cases hq : q b with
      | true =>
          rw [List.filter_cons_of_pos (hp.trans hq), List.filter_cons_of_pos hq]
          exact .cons hab ih
      | false =>
          rw [List.filter_cons_of_neg (by simp [hp, hq]), List.filter_cons_of_neg (by simp [hq])]
          exact ih

/-- The first elements are related. -/
theorem head_matched (h : List.Forall₂ R xs ys) : Option.Rel R xs.head? ys.head? := by
  cases h with
  | nil => exact .none
  | cons hab _ => exact .some hab

/-- The first elements that pass tests that agree are related. -/
theorem find_matched {p : α → Bool} {q : β → Bool} (hpq : ∀ a b, R a b → p a = q b)
    (h : List.Forall₂ R xs ys) : Option.Rel R (xs.find? p) (ys.find? q) := by
  rw [← List.head?_filter, ← List.head?_filter]
  exact head_matched (filter_matched hpq h)

/-- The last elements are related. -/
theorem last_matched (h : List.Forall₂ R xs ys) : Option.Rel R xs.getLast? ys.getLast? := by
  rw [List.getLast?_eq_head?_reverse, List.getLast?_eq_head?_reverse]
  exact head_matched (List.forall₂_reverse_iff.2 h)

/-- The elements at one position are related. -/
theorem get_matched (h : List.Forall₂ R xs ys) (i : Nat) : Option.Rel R xs[i]? ys[i]? := by
  induction h generalizing i with
  | nil => exact .none
  | cons hab _ ih =>
      cases i with
      | zero => exact .some hab
      | succ i => exact ih i

/-- Stretches at the front, taken by tests that agree, are related. -/
theorem takeWhile_matched {p : α → Bool} {q : β → Bool} (hpq : ∀ a b, R a b → p a = q b)
    (h : List.Forall₂ R xs ys) : List.Forall₂ R (xs.takeWhile p) (ys.takeWhile q) := by
  induction h with
  | nil => exact .nil
  | @cons a b xs ys hab _ ih =>
      rw [List.takeWhile_cons, List.takeWhile_cons, hpq a b hab]
      split
      · exact .cons hab ih
      · exact .nil

/-- Where a stretch ends only at an element that the filter keeps, it may be taken behind the
filter. -/
theorem filter_takeWhile {p q : α → Bool} (h : ∀ a ∈ xs, p a = false → q a = true) :
    (xs.takeWhile p).filter q = (xs.filter q).takeWhile p := by
  induction xs with
  | nil => rfl
  | cons a xs ih =>
      have ih := ih fun b hb => h b (List.mem_cons_of_mem _ hb)
      cases hp : p a with
      | false =>
          rw [List.takeWhile_cons_of_neg (by simp [hp]),
            List.filter_cons_of_pos (h a List.mem_cons_self hp),
            List.takeWhile_cons_of_neg (by simp [hp])]
          rfl
      | true =>
          cases hq : q a with
          | true => simp [hp, hq, ih]
          | false => simp [hp, hq, ih]

/-- A stretch that ends in the first list ends there in the longer one. -/
theorem takeWhile_append_of_mem {p : α → Bool} {xs : List α} {x : α} (hx : x ∈ xs)
    (hp : p x = false) (ys : List α) : (xs ++ ys).takeWhile p = xs.takeWhile p := by
  induction xs with
  | nil => cases hx
  | cons y xs ih =>
      rw [List.cons_append, List.takeWhile_cons, List.takeWhile_cons]
      rcases List.mem_cons.1 hx with rfl | hx
      · rw [hp]
        rfl
      · rw [ih hx]

/-- Searches that agree on related elements find related values. -/
theorem findSome_matched {f : α → Option γ} {g : β → Option δ}
    (hfg : ∀ a b, R a b → Option.Rel S (f a) (g b)) (h : List.Forall₂ R xs ys) :
    Option.Rel S (xs.findSome? f) (ys.findSome? g) := by
  induction h with
  | nil => exact .none
  | @cons a b xs ys hab _ ih =>
      have hhead := hfg a b hab
      rw [List.findSome?_cons, List.findSome?_cons]
      cases hf : f a with
      | none =>
          rw [hf] at hhead
          cases hg : g b with
          | none => exact ih
          | some d =>
              rw [hg] at hhead
              cases hhead
      | some c =>
          rw [hf] at hhead
          cases hg : g b with
          | none =>
              rw [hg] at hhead
              cases hhead
          | some d =>
              rw [hg] at hhead
              exact hhead

/-- A test in front of a search makes no difference if it admits all that the search finds. -/
theorem findSome_filter_matched {p : α → Bool} {q : β → Bool} {f : α → Option γ} {g : β → Option δ}
    (hfg : ∀ a b, R a b → (p a = false ∧ q b = false) ∨
      Option.Rel (fun c d => S c d ∧ p a = true ∧ q b = true) (f a) (g b))
    (h : List.Forall₂ R xs ys) :
    Option.Rel S ((xs.filter p).findSome? f) ((ys.filter q).findSome? g) := by
  induction h with
  | nil => exact .none
  | @cons a b xs ys hab _ ih =>
      rcases hfg a b hab with ⟨hp, hq⟩ | hrel
      · rw [List.filter_cons_of_neg (by simp [hp]), List.filter_cons_of_neg (by simp [hq])]
        exact ih
      · generalize hf : f a = x at hrel
        generalize hg : g b = y at hrel
        cases hrel with
        | none =>
            rw [List.filter_cons, List.filter_cons]
            split <;> split <;> simpa [hf, hg] using ih
        | some hcd =>
            rw [List.filter_cons_of_pos hcd.2.1, List.filter_cons_of_pos hcd.2.2,
              List.findSome?_cons, List.findSome?_cons, hf, hg]
            exact .some hcd.1

/-- What is computed from related elements, where there is anything, is related. -/
theorem filterMap_matched {f : α → Option γ} {g : β → Option δ}
    (hfg : ∀ a b, R a b → Option.Rel S (f a) (g b)) (h : List.Forall₂ R xs ys) :
    List.Forall₂ S (xs.filterMap f) (ys.filterMap g) :=
  List.rel_filterMap (fun _ _ hab => hfg _ _ hab) h

/-- Related values lead to related values. -/
theorem bind_matched {x : Option α} {y : Option β} {f : α → Option γ} {g : β → Option δ}
    (h : Option.Rel R x y) (hfg : ∀ a b, R a b → Option.Rel S (f a) (g b)) :
    Option.Rel S (x.bind f) (y.bind g) := by
  cases h with
  | none => exact .none
  | some hab => exact hfg _ _ hab

/-- Functions that agree on related values give related ones. -/
theorem map_matched {x : Option α} {y : Option β} {f : α → γ} {g : β → δ}
    (h : Option.Rel R x y) (hfg : ∀ a b, R a b → S (f a) (g b)) :
    Option.Rel S (x.map f) (y.map g) := by
  cases h with
  | none => exact .none
  | some hab => exact .some (hfg _ _ hab)

/-- Functions that give the same for related values give the same. -/
theorem map_eq_of_matched {x : Option α} {y : Option β} {f : α → γ} {g : β → γ}
    (h : Option.Rel R x y) (hfg : ∀ a b, x = some a → R a b → f a = g b) : x.map f = y.map g := by
  cases h with
  | none => rfl
  | some hab => rw [Option.map_some, Option.map_some, hfg _ _ rfl hab]

/-- The same for the elements of lists. -/
theorem map_list_eq_of_matched {f : α → γ} {g : β → γ} (hfg : ∀ a b, R a b → f a = g b)
    (h : List.Forall₂ R xs ys) : xs.map f = ys.map g := by
  induction h with
  | nil => rfl
  | cons hab _ ih => rw [List.map_cons, List.map_cons, hfg _ _ hab, ih]

/-- Elements with the same images are related by having them, too. -/
theorem matched_of_map_list_eq {f : α → γ} {g : β → γ} (hmap : xs.map f = ys.map g)
    (h : List.Forall₂ R xs ys) : List.Forall₂ (fun a b => R a b ∧ f a = g b) xs ys := by
  induction h with
  | nil => exact .nil
  | cons hab _ ih =>
      obtain ⟨hhead, htail⟩ := List.cons.inj hmap
      exact .cons ⟨hab, hhead⟩ (ih htail)

/-- Tests that agree on related values have the same answer. -/
theorem any_eq_of_matched {x : Option α} {y : Option β} {p : α → Bool} {q : β → Bool}
    (h : Option.Rel R x y) (hpq : ∀ a b, R a b → p a = q b) : x.any p = y.any q := by
  cases h with
  | none => rfl
  | some hab => exact hpq _ _ hab

/-- Tests that agree on related elements have the same answer for the lists. -/
theorem any_list_eq_of_matched {p : α → Bool} {q : β → Bool} (hpq : ∀ a b, R a b → p a = q b)
    (h : List.Forall₂ R xs ys) : xs.any p = ys.any q := by
  induction h with
  | nil => rfl
  | cons hab _ ih => rw [List.any_cons, List.any_cons, hpq _ _ hab, ih]

/-- To be related by equality is to be equal. -/
theorem eq_of_matched {x y : Option α} (h : Option.Rel Eq x y) : x = y := by
  cases h with
  | none => rfl
  | some hab => rw [hab]

/-- A relation that implies another one relates what that one relates. -/
theorem rel_imp {S : α → β → Prop} {x : Option α} {y : Option β} (h : Option.Rel R x y)
    (hRS : ∀ a b, R a b → S a b) : Option.Rel S x y := by
  cases h with
  | none => exact .none
  | some hab => exact .some (hRS _ _ hab)

/-- A fact may be remembered beside a relation. -/
theorem map_rel_and {x : Option α} {y : Option β} {p : Prop} (h : Option.Rel R x y) (hp : p) :
    Option.Rel (fun a b => R a b ∧ p) x y := by
  cases h with
  | none => exact .none
  | some hab => exact .some ⟨hab, hp⟩

/-- Related values are both there or both missing. -/
theorem isSome_eq_of_matched {x : Option α} {y : Option β} (h : Option.Rel R x y) :
    x.isSome = y.isSome := by
  cases h with
  | none => rfl
  | some _ => rfl

/-- Related values as lists. -/
theorem toList_matched {x : Option α} {y : Option β} (h : Option.Rel R x y) : List.Forall₂ R x.toList y.toList := by
  cases h with
  | none => exact .nil
  | some hab => exact .cons hab .nil

/-- What a value is related to. -/
theorem exists_of_rel {x : Option α} {y : Option β} {a : α}
    (h : Option.Rel R x y) (ha : x = some a) : ∃ b, y = some b ∧ R a b := by
  cases h with
  | none => cases ha
  | some hab =>
      obtain rfl := Option.some.inj ha
      exact ⟨_, rfl, hab⟩

/-- Nothing is related to nothing. -/
theorem eq_none_of_rel {x : Option α} {y : Option β}
    (h : Option.Rel R x y) (ha : x = none) : y = none := by
  cases h with
  | none => rfl
  | some hab => cases ha

/-- Related elements with their lists. -/
theorem forall₂_mem (h : List.Forall₂ R xs ys) :
    List.Forall₂ (fun a b => R a b ∧ a ∈ xs ∧ b ∈ ys) xs ys := by
  induction h with
  | nil => exact .nil
  | cons hab _ ih =>
      refine .cons ⟨hab, List.mem_cons_self, List.mem_cons_self⟩ (ih.imp fun _ _ h => ?_)
      exact ⟨h.1, List.mem_cons_of_mem _ h.2.1, List.mem_cons_of_mem _ h.2.2⟩

/-- An element on the left has a related one on the right. -/
theorem exists_of_mem_left (h : List.Forall₂ R xs ys) {a : α} (ha : a ∈ xs) : ∃ b ∈ ys, R a b := by
  induction h with
  | nil => cases ha
  | cons hab _ ih =>
      rcases List.mem_cons.1 ha with rfl | ha
      · exact ⟨_, List.mem_cons_self, hab⟩
      · obtain ⟨b, hb, hab⟩ := ih ha
        exact ⟨b, List.mem_cons_of_mem _ hb, hab⟩

/-- An element on the right has a related one on the left. -/
theorem exists_of_mem_right (h : List.Forall₂ R xs ys) {b : β} (hb : b ∈ ys) : ∃ a ∈ xs, R a b :=
  exists_of_mem_left h.flip hb

end CodeMend
