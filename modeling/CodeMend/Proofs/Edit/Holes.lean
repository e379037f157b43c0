import CodeMend.Proofs.Edit.Grafting
import CodeMend.Proofs.Paired

/-!
# Trees that differ in one place

`Hole c c' w t t'` says that `t` and `t'` are the same tree, but for one place: at the end of the way
`w` the one has `c` and the other has `c'`.  All other sites of the trees pair up in the order of the
text (`Hole.sites`): they have the same path, and their trees are the same or differ in the same place
again.
-/

namespace CodeMend

namespace Site

open Tree

/-- The trees differ in one place.  The path to it is given innermost first. -/
inductive Hole (c c' : Tree) : List Nat → Tree → Tree → Prop
  | here : Hole c c' [] c c'
  | inside {w : List Nat} {t t' : Tree} (k : Kind) (before after : List Tree) :
      Hole c c' w t t' → Hole c c' (w ++ [before.length]) (.node k (before ++ t :: after))
        (.node k (before ++ t' :: after))

variable {c c' t t' : Tree} {w : List Nat}

/-- Trees that differ in one place do so in the same surroundings. -/
theorem Hole.rebuild (h : Hole c c' w t t') (fs : List Frame) :
    Hole c c' (w ++ pathOf fs) (rebuild t fs) (Site.rebuild t' fs) := by
  induction fs generalizing w t t' with
  | nil =>
      show Hole c c' (w ++ []) t t'
      rwa [List.append_nil]
  | cons f fs ih =>
      have hframe := Hole.inside f.kind f.before.reverse f.after h
      rw [List.length_reverse] at hframe
      have hrest := ih hframe
      rwa [List.append_assoc, List.singleton_append] at hrest

/-- With no way to go, the trees are what differs. -/
theorem Hole.eq_of_nil (h : Hole c c' [] t t') : t = c ∧ t' = c' := by
  generalize hw : ([] : List Nat) = w at h
  cases h with
  | here => exact ⟨rfl, rfl⟩
  | inside => simp at hw

/-- The trees are the same or differ in a place further down. -/
def Patched (c c' t t' : Tree) : Prop := t = t' ∨ ∃ w, w ≠ [] ∧ Hole c c' w t t'

/-- Sites at the same place, with trees that are the same or differ in the place to which `w` leads. -/
def Twin (c c' : Tree) (w : List Nat) (s s' : Site) : Prop :=
  s.path = s'.path ∧
    (s.tree = s'.tree ∨ ∃ v, v ≠ [] ∧ v ++ s.path = w ∧ Hole c c' v s.tree s'.tree)

/-- Sites at one place have trees that are the same or differ further down. -/
theorem Twin.patched {s s' : Site} (h : Twin c c' w s s') : Patched c c' s.tree s'.tree := by
  rcases h.2 with heq | ⟨v, hv, -, hole⟩
  · exact Or.inl heq
  · exact Or.inr ⟨v, hv, hole⟩

/-- Sites with the same path and the same tree. -/
def Alike (s s' : Site) : Prop := s.path = s'.path ∧ s.tree = s'.tree

/-- Sites with the same tree are twins, wherever the trees differ. -/
theorem Alike.twin {s s' : Site} (h : Alike s s') (c c' : Tree) (w : List Nat) : Twin c c' w s s' :=
  ⟨h.1, Or.inl h.2⟩

/-- The sites of one tree in two surroundings. -/
theorem sites_alike :
    (∀ t origin origin' here here' above above', pathOf above = pathOf above' →
      List.Forall₂ Alike (subtreeOf origin here above t) (subtreeOf origin' here' above' t)) ∧
    ∀ ts origin origin' k k' start start' here here' above above' before before',
      pathOf above = pathOf above' → before.length = before'.length →
        List.Forall₂ Alike (subtreesOf origin k start above here before ts)
          (subtreesOf origin' k' start' above' here' before' ts) := by
  apply induct
  · intro k text origin origin' here here' above above' hpath
    exact .cons ⟨hpath, rfl⟩ .nil
  · intro k cs ih origin origin' here here' above above' hpath
    exact .cons ⟨hpath, rfl⟩ (ih _ _ _ _ _ _ _ _ _ _ _ _ hpath rfl)
  · intros
    exact .nil
  · intro t ts ht hts origin origin' k k' start start' here here' above above' before before' hpath
      hlength
    refine List.rel_append (ht _ _ _ _ _ _ ?_) (hts _ _ _ _ _ _ _ _ _ _ _ _ hpath ?_)
    · simp only [pathOf, List.map_cons] at hpath ⊢
      rw [hpath, hlength]
    · simp [hlength]

/-- The sites of trees in a row, up to those that follow. -/
theorem sites_before (ls rest rest' : List Tree) (origin origin' : Nat) (k k' : Kind)
    (start start' here here' : Nat) {above above' : List Frame} (before before' : List Tree)
    (hpath : pathOf above = pathOf above') (hlength : before.length = before'.length) :
    ∃ A A', List.Forall₂ Alike A A' ∧
      (∀ s ∈ A, ∃ down i, i < before.length + ls.length ∧ s.path = down ++ i :: pathOf above) ∧
      subtreesOf origin k start above here before (ls ++ rest) = A ++
        subtreesOf origin k start above (here + widthAll ls) (ls.reverse ++ before) rest ∧
      subtreesOf origin' k' start' above' here' before' (ls ++ rest') = A' ++
        subtreesOf origin' k' start' above' (here' + widthAll ls) (ls.reverse ++ before') rest' := by
  induction ls generalizing here here' before before' with
  | nil => exact ⟨[], [], .nil, nofun, rfl, rfl⟩
  | cons t ls ih =>
      obtain ⟨A, A', hA, hpaths, hrow, hrow'⟩ := ih (here + t.width) (here' + t.width) (t :: before)
        (t :: before') (by simp [hlength])
      have hhead := sites_alike.1 t origin origin' here here'
        (⟨k, start, before, ls ++ rest⟩ :: above) (⟨k', start', before', ls ++ rest'⟩ :: above')
        (by simp only [pathOf, List.map_cons] at hpath ⊢; rw [hpath, hlength])
      refine ⟨_, _, List.rel_append hhead hA, fun s hs => ?_, ?_, ?_⟩
      · rcases List.mem_append.1 hs with hs | hs
        · obtain ⟨down, hdown⟩ := path_of_mem.1 _ _ _ _ s hs
          exact ⟨down, before.length, by simp, hdown⟩
        · obtain ⟨down, i, hi, hdown⟩ := hpaths s hs
          exact ⟨down, i, by simp only [List.length_cons] at hi ⊢; omega, hdown⟩
      · rw [List.cons_append, subtreesOf, hrow, List.append_assoc, widthAll, ← Nat.add_assoc,
          List.reverse_cons, List.append_assoc]
        rfl
      · rw [List.cons_append, subtreesOf, hrow', List.append_assoc, widthAll, ← Nat.add_assoc,
          List.reverse_cons, List.append_assoc]
        rfl

/-- **The sites of two trees that differ in one place pair up**, but for those in that place. -/
theorem Hole.sites (h : Hole c c' w t t') (origin origin' here here' : Nat)
    {above above' : List Frame} (hpath : pathOf above = pathOf above') :
    ∃ A A' B B' start start' frames frames', List.Forall₂ (Twin c c' (w ++ pathOf above)) A A' ∧
      List.Forall₂ (Twin c c' (w ++ pathOf above)) B B' ∧
      pathOf frames = w ++ pathOf above ∧ pathOf frames' = w ++ pathOf above ∧
      subtreeOf origin here above t = A ++ (subtreeOf origin start frames c ++ B) ∧
      subtreeOf origin' here' above' t' = A' ++ (subtreeOf origin' start' frames' c' ++ B') := by
  induction h generalizing here here' above above' with
  | here =>
      exact ⟨[], [], [], [], here, here', above, above', .nil, .nil, rfl, hpath.symm,
        (List.append_nil _).symm, (List.append_nil _).symm⟩
  | @inside w t t' k before after hole ih =>
      obtain ⟨A, A', hA, -, hrow, hrow'⟩ := sites_before before (t :: after)
        (t' :: after) origin origin' k k here here' here here' [] [] hpath rfl
      have hframes : pathOf (⟨k, here, before.reverse ++ [], after⟩ :: above) =
          pathOf (⟨k, here', before.reverse ++ [], after⟩ :: above') := by
        simp only [pathOf, List.map_cons] at hpath ⊢
        rw [hpath]
      obtain ⟨D, D', E, E', start, start', frames, frames', hD, hE, hw, hw', hsub, hsub'⟩ :=
        ih (here + widthAll before) (here' + widthAll before) hframes
      have hB := sites_alike.2 after origin origin' k k here here'
        (here + widthAll before + t.width) (here' + widthAll before + t'.width) above above'
        (t :: (before.reverse ++ [])) (t' :: (before.reverse ++ [])) hpath rfl
      have htwins {X X' : List Site} (h : List.Forall₂ Alike X X') :
          List.Forall₂ (Twin c c' (w ++ [before.length] ++ pathOf above)) X X' :=
        h.imp fun _ _ h => h.twin c c' _
      have hway : w ++ pathOf (⟨k, here, before.reverse ++ [], after⟩ :: above) =
          w ++ [before.length] ++ pathOf above := by
        simp [pathOf]
      rw [hway] at hD hE hw hw'
      refine ⟨⟨.node k (before ++ t :: after), here, above, origin⟩ :: (A ++ D),
        ⟨.node k (before ++ t' :: after), here', above', origin'⟩ :: (A' ++ D'),
        E ++ _, E' ++ _, start, start', frames, frames', ?_, List.rel_append hE (htwins hB),
        hw, hw', ?_, ?_⟩
      · refine .cons ⟨hpath, Or.inr ⟨_, ?_, rfl, .inside k before after hole⟩⟩
          (List.rel_append (htwins hA) hD)
        simp
      · rw [subtreeOf, hrow, subtreesOf, hsub]
        simp only [List.append_assoc, List.cons_append]
      · rw [subtreeOf, hrow', subtreesOf, hsub']
        simp only [List.append_assoc, List.cons_append]

/-- The first leaf of a node is that of its first child. -/
theorem first_leaf_cons (origin here : Nat) (above : List Frame) (k : Kind) (t : Tree)
    (ts : List Tree) : (leavesOf origin here above (.node k (t :: ts))).head? =
      (leavesOf origin here (⟨k, here, [], ts⟩ :: above) t).head? := by
  rw [leavesOf_node _ _ _ _ (List.cons_ne_nil t ts), leavesAmong_cons]
  cases hleaves : leavesOf origin here (⟨k, here, [], ts⟩ :: above) t with
  | nil => exact absurd hleaves (leavesOf_ne_nil.1 _ _ _ _)
  | cons s ss => rfl

/-- A tree starts with the same leaf wherever it stands. -/
theorem first_leaf_alike (t : Tree) (origin origin' here here' : Nat) {above above' : List Frame}
    (hpath : pathOf above = pathOf above') : (leavesOf origin here above t).head?.map tree =
      (leavesOf origin' here' above' t).head?.map tree := by
  have hleaves := filter_matched (p := isLeaf) (q := isLeaf)
    (fun s s' h => by rw [isLeaf, isLeaf, h.2])
    (sites_alike.1 t origin origin' here here' above above' hpath)
  exact map_eq_of_matched (head_matched hleaves) fun _ _ _ h => h.2

/-- Do the trees start with the same leaf, wherever they stand? -/
def SameStart (c c' : Tree) : Prop :=
  ∀ (origin origin' here here' : Nat) {above above' : List Frame}, pathOf above = pathOf above' →
    (leavesOf origin here above c).head?.map tree = (leavesOf origin' here' above' c').head?.map tree

/-- Nodes with the same first child start with the same leaf. -/
theorem sameStart_of_head (k : Kind) (t : Tree) (ts ts' : List Tree) :
    SameStart (.node k (t :: ts)) (.node k (t :: ts')) := by
  intro origin origin' here here' above above' hpath
  rw [first_leaf_cons, first_leaf_cons]
  exact first_leaf_alike t origin origin' here here' (by simpa [pathOf] using hpath)

/-- Both trees start with the same leaf, if something stands before the place where they differ or what
stands there does. -/
theorem Hole.sameStart (h : Hole c c' w t t') (hw : (∃ i ∈ w, i ≠ 0) ∨ SameStart c c') :
    SameStart t t' := by
  induction h with
  | here => exact hw.resolve_left (by simp)
  | @inside w t t' k before after hole ih =>
      cases before with
      | nil =>
          have hw : (∃ i ∈ w, i ≠ 0) ∨ SameStart c c' := by
            refine hw.imp_left fun ⟨i, hi, hne⟩ => ⟨i, ?_, hne⟩
            rcases List.mem_append.1 hi with hi | hi
            · exact hi
            · exact absurd (List.mem_singleton.1 hi) hne
          intro origin origin' here here' above above' hpath
          rw [List.nil_append, List.nil_append, first_leaf_cons, first_leaf_cons]
          exact ih hw origin origin' here here' (by simpa [pathOf] using hpath)
      | cons b before => exact sameStart_of_head k b (before ++ t :: after) (before ++ t' :: after)

/-! ## Sites beside the place -/

/-- Trees that differ further down have the same kind. -/
theorem Patched.kind_eq (h : Patched c c' t t') : t.kind = t'.kind := by
  rcases h with rfl | ⟨w, hw, hole⟩
  · rfl
  · cases hole with
    | here => exact absurd rfl hw
    | inside => rfl

/-- They are both tokens or both nodes. -/
theorem Patched.isToken_eq (h : Patched c c' t t') : t.isToken = t'.isToken := by
  rcases h with rfl | ⟨w, hw, hole⟩
  · rfl
  · cases hole with
    | here => exact absurd rfl hw
    | inside => rfl

/-- A token does not differ further down. -/
theorem Patched.eq_of_isToken (h : Patched c c' t t') (htoken : t.isToken = true) : t = t' := by
  rcases h with rfl | ⟨w, hw, hole⟩
  · rfl
  · cases hole with
    | here => exact absurd rfl hw
    | inside => cases htoken

/-- Sites at the same place of both trees.  No way to them or to a site above them leads out. -/
structure Beside (out : List Nat → Prop) (root root' s s' : Site) : Prop where
  mem : s ∈ root.subtree
  mem' : s' ∈ root'.subtree
  path_eq : s.path = s'.path
  apart : ∀ p, p <:+ s.path → ¬ out p

section Pair

variable {out : List Nat → Prop} {origin origin' : Nat} {s s' : Site}

/-- A place that the way does not lead to lies beside it, with all that is above it. -/
theorem apart_of_not_suffix {path : List Nat} (h : ¬ w <:+ path) : ∀ p, p <:+ path → ¬ p = w := by
  rintro p hp rfl
  exact h hp

/-- The site of the place where the trees differ. -/
theorem Hole.exists_place (h : Hole c c' w t t') (origin : Nat) :
    ∃ p ∈ (top origin t).subtree, p.path = w ∧ p.tree = c := by
  obtain ⟨A, -, B, -, start, -, frames, -, -, -, hw, -, hsub, -⟩ :=
    h.sites origin origin 0 0 (rfl : pathOf [] = pathOf [])
  refine ⟨⟨c, start, frames, origin⟩, ?_, ?_, rfl⟩
  · rw [subtree, show subtreeOf (top origin t).origin (top origin t).start (top origin t).above
      (top origin t).tree = _ from hsub]
    exact List.mem_append_right _ (List.mem_append_left _ (mem_subtree_self _))
  · exact hw.trans (List.append_nil w)

/-- What is not beside the place lies in it. -/
theorem Hole.mem_place (h : Hole c c' w t t') (hs : s ∈ (top origin t).subtree)
    (hsuffix : w <:+ s.path) : ∃ p ∈ (top origin t).subtree, p.path = w ∧ p.tree = c ∧
      s ∈ p.subtree := by
  obtain ⟨p, hp, hpath, htree⟩ := h.exists_place origin
  refine ⟨p, hp, hpath, htree, (places_of_routes.1 _ _ _ _ p hp s hs).2 ?_⟩
  rw [route, route, hpath]
  exact List.reverse_prefix.2 hsuffix

/-- To differ in one place goes both ways. -/
theorem Hole.symm (h : Hole c c' w t t') : Hole c' c w t' t := by
  induction h with
  | here => exact .here
  | inside k before after _ ih => exact .inside k before after ih

/-- Every site beside the place has a counterpart. -/
theorem Hole.exists_beside (h : Hole c c' w t t') (hs : s ∈ (top origin t).subtree)
    (hapart : ¬ w <:+ s.path) (origin' : Nat) :
    ∃ s', Beside (· = w) (top origin t) (top origin' t') s s' ∧ Twin c c' w s s' := by
  obtain ⟨A, A', B, B', start, start', frames, frames', hA, hB, hw, -, hsub, hsub'⟩ :=
    h.sites origin origin' 0 0 (rfl : pathOf [] = pathOf [])
  rw [show pathOf [] = [] from rfl, List.append_nil] at hA hB hw
  have hmem : s ∈ A ++ (subtreeOf origin start frames c ++ B) := hsub ▸ hs
  have hmem' {s' : Site} (hs' : s' ∈ A' ++ (subtreeOf origin' start' frames' c' ++ B')) :
      s' ∈ (top origin' t').subtree := by
    rw [← hsub'] at hs'
    exact hs'
  rcases List.mem_append.1 hmem with hs' | hmem
  · obtain ⟨s', hs', htwin⟩ := exists_of_mem_left hA hs'
    exact ⟨s', ⟨hs, hmem' (List.mem_append_left _ hs'), htwin.1, apart_of_not_suffix hapart⟩, htwin⟩
  rcases List.mem_append.1 hmem with hs' | hs'
  · obtain ⟨down, hdown⟩ := path_of_mem.1 _ _ _ _ s hs'
    rw [hw] at hdown
    exact absurd ⟨down, hdown.symm⟩ hapart
  · obtain ⟨s', hs', htwin⟩ := exists_of_mem_left hB hs'
    exact ⟨s', ⟨hs, hmem' (List.mem_append_right _ (List.mem_append_right _ hs')), htwin.1,
      apart_of_not_suffix hapart⟩, htwin⟩

/-- Counterparts beside the place are twins. -/
theorem Beside.twin (hole : Hole c c' w t t')
    (h : Beside (· = w) (top origin t) (top origin' t') s s') : Twin c c' w s s' := by
  have hapart : ¬ w <:+ s.path := fun hsuffix => h.apart w hsuffix rfl
  obtain ⟨r, hr, htwin⟩ := hole.exists_beside h.mem hapart origin'
  rwa [eq_of_path_eq.1 _ _ _ _ s' h.mem' r hr.mem' (h.path_eq.symm.trans hr.path_eq)]

/-- To be counterparts goes both ways. -/
theorem Beside.symm (h : Beside out (top origin t) (top origin' t') s s') :
    Beside out (top origin' t') (top origin t) s' s :=
  ⟨h.mem', h.mem, h.path_eq.symm, h.path_eq ▸ h.apart⟩

/-- The sites above are counterparts as well. -/
theorem Beside.above (h : Beside out (top origin t) (top origin' t') s s') :
    List.Forall₂ (Beside out (top origin t) (top origin' t')) s.properAncestors
      s'.properAncestors := by
  have hclimb : ∀ (above above' : List Frame) (tree tree' : Tree) (origin origin' : Nat),
      pathOf above = pathOf above' →
      List.Forall₂ (fun p p' => p.path = p'.path ∧ p.path <:+ pathOf above)
        (climb origin tree above) (climb origin' tree' above') := by
    intro above
    induction above with
    | nil =>
        intro above' tree tree' origin origin' hpath
        cases above' with
        | nil => exact .nil
        | cons f fs => cases hpath
    | cons f fs ih =>
        intro above' tree tree' origin origin' hpath
        cases above' with
        | nil => cases hpath
        | cons f' fs' =>
            have hrest : pathOf fs = pathOf fs' := (List.cons.inj hpath).2
            refine .cons ⟨hrest, List.suffix_cons _ _⟩ ?_
            refine (ih fs' _ _ origin origin' hrest).imp fun p p' hp => ⟨hp.1, ?_⟩
            exact hp.2.trans (List.suffix_cons _ _)
  have hpaths := hclimb s.above s'.above s.tree s'.tree s.origin s'.origin h.path_eq
  refine (forall₂_mem hpaths).imp fun p p' ⟨⟨hpath, hsuffix⟩, hp, hp'⟩ => ⟨?_, ?_, hpath, ?_⟩
  · exact ancestors_mem h.mem (List.mem_cons_of_mem _ hp)
  · exact ancestors_mem h.mem' (List.mem_cons_of_mem _ hp')
  · exact fun q hq => h.apart q (hq.trans hsuffix)

/-- Rows of the same length have the same paths, tree by tree. -/
theorem row_paths (origin origin' : Nat) (k k' : Kind) (start start' here here' : Nat)
    {above above' : List Frame} (hpath : pathOf above = pathOf above') {before before' : List Tree}
    (hlength : before.length = before'.length) {ts ts' : List Tree}
    (h : List.Forall₂ (fun t t' => t.isTrivia = t'.isTrivia) ts ts') :
    List.Forall₂ (fun r r' => r.path = r'.path ∧ (∃ i, r.path = i :: pathOf above) ∧
        r.isTrivia = r'.isTrivia)
      (row origin k start above here before ts) (row origin' k' start' above' here' before' ts') := by
  induction h generalizing here here' before before' with
  | nil => exact .nil
  | cons htrivia _ ih =>
      refine .cons ⟨?_, ⟨before.length, rfl⟩, htrivia⟩ (ih _ _ (by simp [hlength]))
      simp only [path, pathOf, List.map_cons] at hpath ⊢
      rw [hpath, hlength]

/-- Sites whose trees start with the same leaf start with the same token. -/
theorem firstToken_eq_of_sameStart (hpath : s.path = s'.path) (h : SameStart s.tree s'.tree) :
    s.firstToken?.map (fun t => (t.kind, t.text)) = s'.firstToken?.map fun t => (t.kind, t.text) := by
  have hfirst (s : Site) : s.firstToken?.map (fun t => (t.kind, t.text)) =
      (((leavesOf s.origin s.start s.above s.tree).head?.map tree).filter Tree.isToken).map
        fun t => (t.kind, t.text) := by
    rw [Option.filter_map, Option.map_map]
    rfl
  rw [hfirst, hfirst, h s.origin s'.origin s.start s'.start hpath]

/-- So do sites with trees that differ further down, if something stands before the place where they
differ or what stands there starts with the same leaf. -/
theorem Twin.firstToken_eq (h : Twin c c' w s s') (hw : w.head? ≠ some 0 ∨ SameStart c c') :
    s.firstToken?.map (fun t => (t.kind, t.text)) = s'.firstToken?.map fun t => (t.kind, t.text) := by
  refine firstToken_eq_of_sameStart h.1 ?_
  rcases h.2 with htree | ⟨v, hv, hpath, hbelow⟩
  · rw [← htree]
    exact first_leaf_alike s.tree
  · refine hbelow.sameStart (hw.imp_left fun hw => ?_)
    cases v with
    | nil => exact absurd rfl hv
    | cons i v =>
        rw [← hpath] at hw
        exact ⟨i, List.mem_cons_self, fun hi => hw (congrArg some hi)⟩

/-- The children of counterparts are counterparts, if no way to them leads out and there are equally
many. -/
theorem Beside.children (h : Beside out (top origin t) (top origin' t') s s')
    (hout : ∀ i, ¬ out (i :: s.path))
    (htrees : List.Forall₂ (fun t t' => t.isTrivia = t'.isTrivia) s.tree.children s'.tree.children) :
    List.Forall₂ (fun r r' => Beside out (top origin t) (top origin' t') r r' ∧
        r.isTrivia = r'.isTrivia) s.children s'.children := by
  have hrows := row_paths s.origin s'.origin s.kind s'.kind s.start s'.start s.start s'.start h.path_eq
    (rfl : ([] : List Tree).length = ([] : List Tree).length) htrees
  refine (forall₂_mem hrows).imp fun r r' ⟨⟨hpath, ⟨i, hi⟩, heq⟩, hr, hr'⟩ =>
    ⟨⟨mem_subtree_child h.mem hr, mem_subtree_child h.mem' hr', hpath, fun p hp => ?_⟩, heq⟩
  rw [hi] at hp
  rcases List.suffix_cons_iff.1 hp with rfl | hp
  · exact hout i
  · exact h.apart p hp

/-- Trees that differ further down have as many children. -/
theorem Patched.children_matched (h : Patched c c' t t') (hplace : c.isTrivia = c'.isTrivia) :
    List.Forall₂ (fun t t' => t.isTrivia = t'.isTrivia) t.children t'.children := by
  have htrivia : ∀ {w t t'}, Hole c c' w t t' → t.isTrivia = t'.isTrivia := by
    intro w t t' hole
    cases hole with
    | here => exact hplace
    | inside => rfl
  have hself (ts : List Tree) : List.Forall₂ (fun t t' => t.isTrivia = t'.isTrivia) ts ts :=
    List.forall₂_same.2 fun _ _ => rfl
  rcases h with rfl | ⟨v, hv, hbelow⟩
  · exact hself _
  · cases hbelow with
    | here => exact absurd rfl hv
    | inside k before after hrest =>
        exact List.rel_append (hself before) (.cons (htrivia hrest) (hself after))

/-- Sites with a property that no site in the place has pair up, in the order of the text. -/
theorem Hole.filter_sites (hole : Hole c c' w t t') {p : Tree → Bool}
    (hp : ∀ t t', Patched c c' t t' → p t = p t')
    (hc : ∀ origin here above, ∀ s ∈ subtreeOf origin here above c, p s.tree = false)
    (hc' : ∀ origin here above, ∀ s ∈ subtreeOf origin here above c', p s.tree = false)
    (origin origin' : Nat) :
    List.Forall₂ (Beside (· = w) (top origin t) (top origin' t'))
      ((top origin t).subtree.filter (p ·.tree)) ((top origin' t').subtree.filter (p ·.tree)) := by
  obtain ⟨A, A', B, B', start, start', frames, frames', hA, hB, hw, -, hsub, hsub'⟩ :=
    hole.sites origin origin' 0 0 (rfl : pathOf [] = pathOf [])
  rw [show pathOf [] = [] from rfl, List.append_nil] at hA hB
  have htwins : List.Forall₂ (Twin c c' w) ((top origin t).subtree.filter (p ·.tree))
      ((top origin' t').subtree.filter (p ·.tree)) := by
    have hempty : (subtreeOf origin start frames c).filter (p ·.tree) = [] :=
      List.filter_eq_nil_iff.2 fun s hs => by simp [hc _ _ _ s hs]
    have hempty' : (subtreeOf origin' start' frames' c').filter (p ·.tree) = [] :=
      List.filter_eq_nil_iff.2 fun s hs => by simp [hc' _ _ _ s hs]
    show List.Forall₂ (Twin c c' w) ((subtreeOf origin 0 [] t).filter (p ·.tree))
      ((subtreeOf origin' 0 [] t').filter (p ·.tree))
    rw [hsub, hsub', List.filter_append, List.filter_append, List.filter_append, List.filter_append,
      hempty, hempty', List.nil_append, List.nil_append]
    have hfilter := fun s s' (h : Twin c c' w s s') => hp s.tree s'.tree h.patched
    exact List.rel_append (filter_matched hfilter hA) (filter_matched hfilter hB)
  refine (forall₂_mem htwins).imp fun s s' ⟨htwin, hs, hs'⟩ => ?_
  obtain ⟨hmem, hfit⟩ := List.mem_filter.1 hs
  refine ⟨hmem, (List.mem_filter.1 hs').1, htwin.1, apart_of_not_suffix fun hsuffix => ?_⟩
  obtain ⟨q, -, -, htree, hbelow⟩ := hole.mem_place hmem hsuffix
  rw [subtree, htree] at hbelow
  rw [hc _ _ _ s hbelow] at hfit
  cases hfit

end Pair

end Site

end CodeMend
