/-!
# Sorting

Errors, findings, splices and directives are listed by an order of their own each.  Sorting is stable:
what ties in the order stays as it comes.  So a sorted list is determined by the items that tie
(`IsOrder.eq_of_filter`), and sorting and picking can be done in either order (`filter_sortBy`).
-/

namespace CodeMend

variable {α : Type} {le : α → α → Bool}

/-- Inserts an item behind those that do not come after it. -/
def insertBy (le : α → α → Bool) (a : α) : List α → List α
  | [] => [a]
  | b :: bs => if le b a then b :: insertBy le a bs else a :: b :: bs

/-- Items in their order; those that tie stay as they come. -/
def sortBy (le : α → α → Bool) (items : List α) : List α :=
  items.foldl (fun sorted a => insertBy le a sorted) []

/-- The order by a number. -/
def byNumber (number : α → Nat) (a b : α) : Bool := number a ≤ number b

/-- What makes a relation an order to sort by; different items may tie. -/
structure IsOrder (le : α → α → Bool) : Prop where
  total : ∀ a b, le a b = true ∨ le b a = true
  trans : ∀ {a b c}, le a b = true → le b c = true → le a c = true

/-- Numbers make an order. -/
theorem byNumber_isOrder (number : α → Nat) : IsOrder (byNumber number) where
  total a b := by
    simp only [byNumber, decide_eq_true_eq]
    omega
  trans hab hbc := by
    simp only [byNumber, decide_eq_true_eq] at *
    omega

/-! ## The items stay -/

/-- To insert an item adds it and nothing else. -/
theorem insertBy_perm (a : α) (bs : List α) : (insertBy le a bs).Perm (a :: bs) := by
  fun_induction insertBy le a bs with
  | case1 => exact List.Perm.refl _
  | case2 b bs hle ih => exact (ih.cons b).trans (List.Perm.swap a b bs)
  | case3 b bs hle => exact List.Perm.refl _

/-- To sort items is to rearrange them. -/
theorem sortBy_perm (items : List α) : (sortBy le items).Perm items := by
  have hfold : ∀ sorted, (items.foldl (fun sorted a => insertBy le a sorted) sorted).Perm
      (sorted ++ items) := by
    induction items with
    | nil => simp
    | cons a items ih =>
        intro sorted
        refine (ih _).trans ?_
        refine ((insertBy_perm a sorted).append_right items).trans ?_
        exact List.perm_middle.symm
  simpa [sortBy] using hfold []

@[simp] theorem sortBy_nil : sortBy le [] = [] := rfl

/-- Nothing comes of nothing only. -/
theorem sortBy_eq_nil {items : List α} : sortBy le items = [] ↔ items = [] := by
  refine ⟨fun h => ?_, fun h => by rw [h, sortBy_nil]⟩
  have hperm : (sortBy le items).Perm items := sortBy_perm items
  rw [h] at hperm
  exact List.nil_perm.1 hperm

/-! ## The order -/

/-- An item that everything comes after goes to the front. -/
theorem insertBy_front {a : α} {bs : List α} (h : ∀ b ∈ bs, le b a = false) :
    insertBy le a bs = a :: bs := by
  cases bs with
  | nil => rfl
  | cons b bs => simp [insertBy, h b List.mem_cons_self]

/-- To insert an item keeps the order. -/
theorem insertBy_sorted (hle : IsOrder le) (a : α) {bs : List α}
    (h : bs.Pairwise fun b c => le b c = true) :
    (insertBy le a bs).Pairwise fun b c => le b c = true := by
  fun_induction insertBy le a bs with
  | case1 => exact List.pairwise_singleton _ a
  | case2 b bs hba ih =>
      obtain ⟨hfirst, hrest⟩ := List.pairwise_cons.1 h
      refine List.pairwise_cons.2 ⟨fun c hc => ?_, ih hrest⟩
      rcases List.mem_cons.1 ((insertBy_perm a bs).mem_iff.1 hc) with rfl | hc
      · exact hba
      · exact hfirst c hc
  | case3 b bs hba =>
      have hab : le a b = true := (hle.total a b).resolve_right hba
      refine List.pairwise_cons.2 ⟨fun c hc => ?_, h⟩
      rcases List.mem_cons.1 hc with rfl | hc
      · exact hab
      · exact hle.trans hab ((List.pairwise_cons.1 h).1 c hc)

/-- Sorted items are in order. -/
theorem sortBy_sorted (hle : IsOrder le) (items : List α) :
    (sortBy le items).Pairwise fun a b => le a b = true := by
  have hfold : ∀ sorted, sorted.Pairwise (fun a b => le a b = true) →
      (items.foldl (fun sorted a => insertBy le a sorted) sorted).Pairwise
        fun a b => le a b = true := by
    induction items with
    | nil => exact fun _ h => h
    | cons a items ih => exact fun sorted h => ih _ (insertBy_sorted hle a h)
  exact hfold [] List.Pairwise.nil

/-- An item that comes after everything goes to the end. -/
theorem insertBy_back {a : α} {bs : List α} (h : ∀ b ∈ bs, le b a = true) :
    insertBy le a bs = bs ++ [a] := by
  induction bs with
  | nil => rfl
  | cons b bs ih =>
      obtain ⟨hb, hbs⟩ := List.forall_mem_cons.1 h
      simp [insertBy, hb, ih hbs]

/-- Items that are in order stay as they are. -/
theorem sortBy_eq_self {items : List α} (h : items.Pairwise fun a b => le a b = true) :
    sortBy le items = items := by
  have hfold : ∀ sorted, (sorted ++ items).Pairwise (fun a b => le a b = true) →
      items.foldl (fun sorted a => insertBy le a sorted) sorted = sorted ++ items := by
    clear h
    induction items with
    | nil => simp
    | cons a items ih =>
        intro sorted h
        have hback : insertBy le a sorted = sorted ++ [a] :=
          insertBy_back fun b hb => (List.pairwise_append.1 h).2.2 b hb a List.mem_cons_self
        rw [List.foldl_cons, hback, ih _ (by simpa using h), List.append_assoc]
        rfl
  exact hfold [] h

/-- Items whose numbers rise are in no need of sorting, however they were listed. -/
theorem sortBy_eq_of_perm {number : α → Nat} {items sorted : List α} (hperm : items.Perm sorted)
    (hrising : sorted.Pairwise fun a b => number a < number b) :
    sortBy (byNumber number) items = sorted := by
  have hle := byNumber_isOrder number
  refine List.Perm.eq_of_pairwise (fun a b ha hb hab hba => ?_) (sortBy_sorted hle items)
    (hrising.imp fun h => by simpa [byNumber] using Nat.le_of_lt h)
    ((sortBy_perm items).trans hperm)
  simp only [byNumber, decide_eq_true_eq] at hab hba
  -- two items with one number stand at one place of the rising list
  have ha : a ∈ sorted := (sortBy_perm items |>.trans hperm).mem_iff.1 ha
  obtain ⟨i, hi, rfl⟩ := List.getElem_of_mem ha
  obtain ⟨j, hj, rfl⟩ := List.getElem_of_mem hb
  rw [List.pairwise_iff_getElem] at hrising
  rcases Nat.lt_trichotomy i j with hij | rfl | hij
  · have := hrising i j hi hj hij
    omega
  · rfl
  · have := hrising j i hj hi hij
    omega

/-! ## What ties -/

/-- Do two items tie in the order? -/
def tied (le : α → α → Bool) (a b : α) : Bool := le a b && le b a

namespace IsOrder

theorem le_self (hle : IsOrder le) (a : α) : le a a = true := by
  rcases hle.total a a with h | h <;> exact h

theorem tied_self (hle : IsOrder le) (a : α) : tied le a a = true := by
  simp [tied, hle.le_self]

/-- Items in their order are determined by those that tie. -/
theorem eq_of_filter (hle : IsOrder le) {as bs : List α} (has : as.Pairwise fun a b => le a b = true)
    (hbs : bs.Pairwise fun a b => le a b = true)
    (h : ∀ a, as.filter (tied le a) = bs.filter (tied le a)) : as = bs := by
  induction as generalizing bs with
  | nil =>
      cases bs with
      | nil => rfl
      | cons b bs => exact absurd (h b) (by simp [hle.tied_self])
  | cons a as ih =>
      obtain ⟨hfirst, hrest⟩ := List.pairwise_cons.1 has
      cases bs with
      | nil => exact absurd (h a) (by simp [hle.tied_self])
      | cons b bs =>
          obtain ⟨hfirst', hrest'⟩ := List.pairwise_cons.1 hbs
          -- each of the two heads occurs in the other list
          have hab : le a b = true := by
            have hmem : b ∈ (a :: as).filter (tied le b) := by
              rw [h b]
              exact List.mem_filter.2 ⟨List.mem_cons_self, hle.tied_self b⟩
            rcases List.mem_cons.1 (List.mem_filter.1 hmem).1 with rfl | hmem
            · exact hle.le_self b
            · exact hfirst b hmem
          have hba : le b a = true := by
            have hmem : a ∈ (b :: bs).filter (tied le a) := by
              rw [← h a]
              exact List.mem_filter.2 ⟨List.mem_cons_self, hle.tied_self a⟩
            rcases List.mem_cons.1 (List.mem_filter.1 hmem).1 with rfl | hmem
            · exact hle.le_self a
            · exact hfirst' a hmem
          have hheads := h a
          rw [List.filter_cons_of_pos (hle.tied_self a),
            List.filter_cons_of_pos (by simp [tied, hab, hba])] at hheads
          obtain rfl := (List.cons.inj hheads).1
          congr 1
          refine ih hrest hrest' fun x => ?_
          have hx := h x
          cases htied : tied le x a with
          | true =>
              rw [List.filter_cons_of_pos htied, List.filter_cons_of_pos htied] at hx
              exact (List.cons.inj hx).2
          | false =>
              rwa [List.filter_cons_of_neg (by simp [htied]),
                List.filter_cons_of_neg (by simp [htied])] at hx

end IsOrder

/-- To insert an item and then to pick some is to pick first. -/
theorem filter_insertBy (hle : IsOrder le) (p : α → Bool) (a : α) {bs : List α}
    (h : bs.Pairwise fun b c => le b c = true) :
    (insertBy le a bs).filter p = if p a then insertBy le a (bs.filter p) else bs.filter p := by
  induction bs with
  | nil => cases ha : p a <;> simp [insertBy, ha]
  | cons b bs ih =>
      obtain ⟨hfirst, hrest⟩ := List.pairwise_cons.1 h
      cases hba : le b a with
      | true =>
          simp only [insertBy, hba, if_true]
          cases hb : p b with
          | true =>
              rw [List.filter_cons_of_pos hb, List.filter_cons_of_pos hb, ih hrest]
              cases ha : p a <;> simp [insertBy, hba]
          | false =>
              rw [List.filter_cons_of_neg (by simp [hb]), List.filter_cons_of_neg (by simp [hb]),
                ih hrest]
      | false =>
          -- what comes behind `b` does not come before `a` either
          have hbehind : ∀ c ∈ b :: bs, le c a = false := by
            intro c hc
            rcases List.mem_cons.1 hc with rfl | hc
            · exact hba
            · refine Bool.eq_false_iff.2 fun hca => ?_
              rw [hle.trans (hfirst c hc) hca] at hba
              cases hba
          rw [insertBy_front hbehind,
            insertBy_front fun c hc => hbehind c (List.mem_filter.1 hc).1]
          cases ha : p a <;> simp [List.filter_cons, ha]

/-- To sort and to pick can be done in either order. -/
theorem filter_sortBy (hle : IsOrder le) (p : α → Bool) (items : List α) :
    (sortBy le items).filter p = sortBy le (items.filter p) := by
  have hfold : ∀ sorted, sorted.Pairwise (fun a b => le a b = true) →
      (items.foldl (fun sorted a => insertBy le a sorted) sorted).filter p =
        (items.filter p).foldl (fun sorted a => insertBy le a sorted) (sorted.filter p) := by
    induction items with
    | nil => exact fun _ _ => rfl
    | cons a items ih =>
        intro sorted h
        rw [List.foldl_cons, ih _ (insertBy_sorted hle a h), filter_insertBy hle p a h]
        cases ha : p a <;> simp [ha]
  exact hfold [] List.Pairwise.nil

/-- Two lists in which items that tie follow each other in the same way are sorted alike. -/
theorem sortBy_congr (hle : IsOrder le) {as bs : List α}
    (h : ∀ a, as.filter (tied le a) = bs.filter (tied le a)) : sortBy le as = sortBy le bs := by
  refine hle.eq_of_filter (sortBy_sorted hle as) (sortBy_sorted hle bs) fun a => ?_
  rw [filter_sortBy hle, filter_sortBy hle, h a]

end CodeMend
