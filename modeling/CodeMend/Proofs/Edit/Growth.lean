import CodeMend.Proofs.Edit.Holes
import CodeMend.Proofs.Edit.Insertion

/-!
# A node with other trees at its end

Two trees that differ in one node, which in both of them starts with the same trees: then all sites
have counterparts but for those in the trees behind (`Hole.exists_front`), and those with a property
that no site behind has pair up in the order of the text (`Hole.filter_front`).
-/

namespace CodeMend

namespace Site

open Tree

/-- The ways into the trees from number `n` on of the node to which `w` leads. -/
def Behind (n : Nat) (w p : List Nat) : Prop := ∃ i, n ≤ i ∧ p = i :: w

/-- Rows that start with the same trees: those are at the same places. -/
theorem row_front (front back back' : List Tree) (origin origin' : Nat) (k k' : Kind)
    (start start' here here' : Nat) {above above' : List Frame} (hpath : pathOf above = pathOf above')
    (before before' : List Tree) (hlength : before.length = before'.length) :
    ∃ F F', List.Forall₂ (fun r r' => (r.path = r'.path ∧ r.tree = r'.tree) ∧
        ∃ i, i < before.length + front.length ∧ r.path = i :: pathOf above) F F' ∧
      row origin k start above here before (front ++ back) = F ++
        row origin k start above (here + widthAll front) (front.reverse ++ before) back ∧
      row origin' k' start' above' here' before' (front ++ back') = F' ++
        row origin' k' start' above' (here' + widthAll front) (front.reverse ++ before') back' := by
  induction front generalizing here here' before before' with
  | nil => exact ⟨[], [], .nil, rfl, rfl⟩
  | cons t front ih =>
      obtain ⟨F, F', hF, hrow, hrow'⟩ := ih (here + t.width) (here' + t.width) (t :: before)
        (t :: before') (by simp [hlength])
      refine ⟨⟨t, here, ⟨k, start, before, front ++ back⟩ :: above, origin⟩ :: F,
        ⟨t, here', ⟨k', start', before', front ++ back'⟩ :: above', origin'⟩ :: F', .cons ?_ ?_, ?_, ?_⟩
      · refine ⟨⟨?_, rfl⟩, before.length, by simp, rfl⟩
        simp only [path, pathOf, List.map_cons] at hpath ⊢
        rw [hpath, hlength]
      · refine hF.imp fun r r' h => ?_
        obtain ⟨hsame, i, hi, hri⟩ := h
        refine ⟨hsame, i, ?_, hri⟩
        simp only [List.length_cons] at hi ⊢
        omega
      · rw [List.cons_append, row, hrow, widthAll, ← Nat.add_assoc, List.reverse_cons,
          List.append_assoc]
        rfl
      · rw [List.cons_append, row, hrow', widthAll, ← Nat.add_assoc, List.reverse_cons,
          List.append_assoc]
        rfl

section Front

variable {k : Kind} {front back back' : List Tree} {t t' : Tree} {w : List Nat}
  {origin origin' : Nat} {s s' : Site}
  (hole : Hole (.node k (front ++ back)) (.node k (front ++ back')) w t t')

/-- A site behind the common trees lies in one of the others. -/
theorem mem_back {start : Nat} {above : List Frame} {i : Nat}
    (hs : s ∈ subtreeOf origin start above (.node k (front ++ back)))
    (hsuffix : (i :: pathOf above) <:+ s.path) (hi : front.length ≤ i) :
    s ∈ subtreesOf origin k start above (start + widthAll front) front.reverse back := by
  obtain ⟨A, -, -, hpaths, hrow, -⟩ := sites_before front back back origin origin k k start start
    start start [] [] (rfl : pathOf above = pathOf above) rfl
  rw [subtreeOf, hrow] at hs
  rw [List.append_nil] at hs
  rcases List.mem_cons.1 hs with rfl | hs
  · have hlength := hsuffix.length_le
    simp only [path, pathOf, List.length_cons] at hlength
    omega
  rcases List.mem_append.1 hs with hs | hs
  · -- two ways of one length end the same way
    obtain ⟨down, j, hj, hpath⟩ := hpaths s hs
    obtain ⟨down', hdown'⟩ := hsuffix
    have hsame := List.append_inj' (hdown'.trans hpath) (by simp)
    have hij := (List.cons.inj hsame.2).1
    simp only [List.length_nil] at hj
    omega
  · exact hs

include hole

/-- Every site has a counterpart, but for those in the trees behind. -/
theorem Hole.exists_front (hs : s ∈ (top origin t).subtree)
    (hapart : ∀ p, p <:+ s.path → ¬ Behind front.length w p) (origin' : Nat) :
    ∃ s', Beside (Behind front.length w) (top origin t) (top origin' t') s s' ∧
      (Twin (.node k (front ++ back)) (.node k (front ++ back')) w s s' ∨
        s.path = w ∧ s.tree = .node k (front ++ back) ∧ s'.tree = .node k (front ++ back')) := by
  by_cases hplace : w <:+ s.path
  · obtain ⟨p, hp, rfl, htree, hbelow⟩ := hole.mem_place hs hplace
    obtain ⟨p', hp', hpath, htree'⟩ := hole.symm.exists_place origin'
    obtain ⟨tree, start, above, stamp⟩ := p
    obtain ⟨tree', start', above', stamp'⟩ := p'
    obtain rfl : tree = _ := htree
    obtain rfl : tree' = _ := htree'
    obtain ⟨A, A', hA, hpaths, hrow, hrow'⟩ := sites_before front back back' stamp stamp' k k start
      start' start start' [] [] (hpath.symm : pathOf above = pathOf above') rfl
    rw [subtree, subtreeOf, hrow] at hbelow
    rcases List.mem_cons.1 hbelow with rfl | hbelow
    · exact ⟨_, ⟨hs, hp', hpath.symm, hapart⟩, Or.inr ⟨rfl, rfl, rfl⟩⟩
    rcases List.mem_append.1 hbelow with hmem | hmem
    · obtain ⟨s', hs', halike⟩ := exists_of_mem_left hA hmem
      refine ⟨s', ⟨hs, ?_, halike.1, hapart⟩, Or.inl (halike.twin _ _ _)⟩
      refine subtree_trans.1 _ _ _ _ _ hp' s' ?_
      rw [subtree, subtreeOf, hrow']
      exact List.mem_cons_of_mem _ (List.mem_append_left _ hs')
    · obtain ⟨down, i, hi, hpath⟩ := path_of_mem.2 _ _ _ _ _ _ _ s hmem
      refine absurd ⟨i, ?_, rfl⟩ (hapart (i :: pathOf above) ⟨down, hpath.symm⟩)
      simpa using hi
  · obtain ⟨s', hbeside, htwin⟩ := hole.exists_beside hs hplace origin'
    exact ⟨s', ⟨hs, hbeside.mem', hbeside.path_eq, hapart⟩, Or.inl htwin⟩

/-- Counterparts are the node itself or differ further down, if they differ. -/
theorem Beside.front_cases (h : Beside (Behind front.length w) (top origin t) (top origin' t') s s') :
    Twin (.node k (front ++ back)) (.node k (front ++ back')) w s s' ∨
      s.path = w ∧ s.tree = .node k (front ++ back) ∧ s'.tree = .node k (front ++ back') := by
  obtain ⟨r, hr, hfront⟩ := hole.exists_front h.mem h.apart origin'
  rwa [eq_of_path_eq.1 _ _ _ _ s' h.mem' r hr.mem' (h.path_eq.symm.trans hr.path_eq)]

omit hole in
/-- The children in front of the node are counterparts. -/
theorem Beside.front_children
    (h : Beside (Behind front.length w) (top origin t) (top origin' t') s s')
    (htree : s.tree = .node k (front ++ back)) (htree' : s'.tree = .node k (front ++ back')) :
    ∃ F B F' B', s.children = F ++ B ∧ s'.children = F' ++ B' ∧ B.map tree = back ∧
      B'.map tree = back' ∧
      List.Forall₂ (fun r r' => Beside (Behind front.length w) (top origin t) (top origin' t') r r' ∧
        r.tree = r'.tree) F F' := by
  obtain ⟨F, F', hF, hrow, hrow'⟩ := row_front front back back' s.origin s'.origin s.kind s'.kind
    s.start s'.start s.start s'.start h.path_eq [] [] rfl
  have hchildren : s.children = F ++ row s.origin s.kind s.start s.above (s.start + widthAll front)
      (front.reverse ++ []) back := by
    rw [← hrow, Site.children, htree]
    rfl
  have hchildren' : s'.children = F' ++ row s'.origin s'.kind s'.start s'.above
      (s'.start + widthAll front) (front.reverse ++ []) back' := by
    rw [← hrow', Site.children, htree']
    rfl
  refine ⟨F, _, F', _, hchildren, hchildren', map_tree_row _ _ _ _ _ _ _, map_tree_row _ _ _ _ _ _ _, ?_⟩
  refine (forall₂_mem hF).imp fun r r' hpair => ?_
  obtain ⟨⟨⟨hrr', heq⟩, i, hi, hri⟩, hr, hr'⟩ := hpair
  refine ⟨⟨?_, ?_, hrr', ?_⟩, heq⟩
  · exact mem_subtree_child h.mem (by rw [hchildren]; exact List.mem_append_left _ hr)
  · exact mem_subtree_child h.mem' (by rw [hchildren']; exact List.mem_append_left _ hr')
  · intro p hp
    rw [hri] at hp
    rcases List.suffix_cons_iff.1 hp with rfl | hp
    · rintro ⟨j, hj, heq⟩
      obtain ⟨rfl, -⟩ := List.cons.inj heq
      simp only [List.length_nil] at hi
      omega
    · exact h.apart p hp

/-- Sites with a property that no site behind has pair up, in the order of the text. -/
theorem Hole.filter_front {p : Tree → Bool}
    (hp : ∀ t t', Patched (.node k (front ++ back)) (.node k (front ++ back')) t t' → p t = p t')
    (hplace : p (.node k (front ++ back)) = p (.node k (front ++ back')))
    (hback : ∀ origin start above here before, ∀ s ∈ subtreesOf origin k start above here before back,
      p s.tree = false)
    (hback' : ∀ origin start above here before,
      ∀ s ∈ subtreesOf origin k start above here before back', p s.tree = false)
    (origin origin' : Nat) :
    List.Forall₂ (Beside (Behind front.length w) (top origin t) (top origin' t'))
      ((top origin t).subtree.filter (p ·.tree)) ((top origin' t').subtree.filter (p ·.tree)) := by
  obtain ⟨A, A', B, B', start, start', frames, frames', hA, hB, hw, hw', hsub, hsub'⟩ :=
    hole.sites origin origin' 0 0 (rfl : pathOf [] = pathOf [])
  obtain ⟨F, F', hF, -, hrow, hrow'⟩ := sites_before front back back' origin origin' k k start
    start' start start' [] [] (hw.trans hw'.symm) rfl
  have hpairs : List.Forall₂ (fun s s' => s.path = s'.path) ((top origin t).subtree.filter (p ·.tree))
      ((top origin' t').subtree.filter (p ·.tree)) := by
    have htwins {X X' : List Site}
        (h : List.Forall₂ (Twin (.node k (front ++ back)) (.node k (front ++ back'))
          (w ++ pathOf [])) X X') :
        List.Forall₂ (fun s s' => s.path = s'.path) (X.filter (p ·.tree)) (X'.filter (p ·.tree)) :=
      (filter_matched (fun s s' h => hp s.tree s'.tree h.patched) h).imp fun _ _ h => h.1
    have hempty : ∀ here before,
        (subtreesOf origin k start frames here before back).filter (p ·.tree) = [] :=
      fun here before => List.filter_eq_nil_iff.2 fun s hs => by simp [hback _ _ _ _ _ s hs]
    have hempty' : ∀ here before,
        (subtreesOf origin' k start' frames' here before back').filter (p ·.tree) = [] :=
      fun here before => List.filter_eq_nil_iff.2 fun s hs => by simp [hback' _ _ _ _ _ s hs]
    have hcons (s : Site) (ss : List Site) :
        (s :: ss).filter (p ·.tree) = [s].filter (p ·.tree) ++ ss.filter (p ·.tree) :=
      List.filter_append [s] ss
    show List.Forall₂ _ ((subtreeOf origin 0 [] t).filter (p ·.tree))
      ((subtreeOf origin' 0 [] t').filter (p ·.tree))
    rw [hsub, hsub', subtreeOf, subtreeOf, hrow, hrow']
    rw [List.filter_append, List.filter_append, List.filter_append, List.filter_append,
      hcons _ (F ++ _), hcons _ (F' ++ _), List.filter_append, List.filter_append, hempty, hempty', List.append_nil, List.append_nil]
    refine List.rel_append (htwins hA) (List.rel_append (List.rel_append ?_ ?_) (htwins hB))
    · have hself : List.Forall₂ (fun s s' : Site => s.path = s'.path ∧ p s.tree = p s'.tree)
          [⟨.node k (front ++ back), start, frames, origin⟩]
          [⟨.node k (front ++ back'), start', frames', origin'⟩] :=
        .cons ⟨hw.trans hw'.symm, hplace⟩ .nil
      exact (filter_matched (fun s s' h => h.2) hself).imp fun _ _ h => h.1
    · exact (filter_matched (fun s s' h => by rw [h.2]) hF).imp fun _ _ h => h.1
  refine (forall₂_mem hpairs).imp fun s s' hpair => ?_
  obtain ⟨hpath, hs, hs'⟩ := hpair
  obtain ⟨hmem, hfit⟩ := List.mem_filter.1 hs
  refine ⟨hmem, (List.mem_filter.1 hs').1, hpath, ?_⟩
  rintro q hq ⟨i, hi, rfl⟩
  obtain ⟨⟨tree, start, above, stamp⟩, -, rfl, htree, hbelow⟩ :=
    hole.mem_place hmem ((List.suffix_cons i w).trans hq)
  obtain rfl : tree = _ := htree
  rw [hback _ _ _ _ _ s (mem_back hbelow hq hi)] at hfit
  cases hfit

end Front

end Site

end CodeMend
