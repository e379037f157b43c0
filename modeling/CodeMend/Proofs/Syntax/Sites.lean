import Mathlib.Algebra.GroupWithZero.Nat
import CodeMend.Proofs.Syntax.Nodes
import CodeMend.Syntax.Site

/-!
# Walks along the text

A leaf finds its neighbours through the frames above it.  What it finds is what stands to its left
and to its right in the list of all leaves of the tree (`leaves_walk`), so a statement about walks
from token to token becomes one about positions in a list.

Two sites of a tree are one above the other, or all leaves of the one come before those of the other
(`subtree_cases`).
-/

namespace CodeMend.Site

open Tree

/-! ## Rows -/

/-- The site of the `xs.length`-th tree of a row. -/
theorem row_take_succ (origin : Nat) (k : Kind) (start : Nat) (above : List Frame) (here : Nat)
    (before xs : List Tree) (t : Tree) (ts : List Tree) :
    (row origin k start above here before (xs ++ t :: ts)).take (xs.length + 1) =
      (row origin k start above here before (xs ++ t :: ts)).take xs.length ++
        [⟨t, here + widthAll xs, ⟨k, start, xs.reverse ++ before, ts⟩ :: above, origin⟩] := by
  induction xs generalizing here before with
  | nil => simp [row, widthAll]
  | cons x xs ih =>
      have hih := ih (here + x.width) (x :: before)
      simp only [List.cons_append, row, List.length_cons, List.take_succ_cons, hih, widthAll,
        List.reverse_cons, List.append_assoc, Nat.add_assoc]
      rfl

/-! ## Leaves -/

/-- The leaves of a tree at a place. -/
def leavesOf (origin here : Nat) (above : List Frame) (t : Tree) : List Site :=
  (subtreeOf origin here above t).filter isLeaf

/-- The leaves of trees side by side. -/
def leavesAmong (origin : Nat) (k : Kind) (start : Nat) (above : List Frame) (here : Nat)
    (before ts : List Tree) : List Site :=
  (subtreesOf origin k start above here before ts).filter isLeaf

/-- The leaves of a site are those of its tree at its place. -/
theorem leaves_eq (s : Site) : s.leaves = leavesOf s.origin s.start s.above s.tree := rfl

/-- A token is its only leaf. -/
theorem leavesOf_token (origin here : Nat) (above : List Frame) (k : Kind) (text : String) :
    leavesOf origin here above (.token k text) = [⟨.token k text, here, above, origin⟩] := rfl

/-- So is a node without children. -/
theorem leavesOf_empty (origin here : Nat) (above : List Frame) (k : Kind) :
    leavesOf origin here above (.node k []) = [⟨.node k [], here, above, origin⟩] := rfl

/-- The leaves of a node are those of its children. -/
theorem leavesOf_node (origin here : Nat) (above : List Frame) (k : Kind) {cs : List Tree}
    (hcs : cs ≠ []) : leavesOf origin here above (.node k cs) =
      leavesAmong origin k here above here [] cs := by
  have hleaf : isLeaf ⟨.node k cs, here, above, origin⟩ = false := by
    cases cs with
    | nil => exact absurd rfl hcs
    | cons c cs => rfl
  rw [leavesOf, subtreeOf, List.filter_cons, hleaf]
  rfl

/-- The leaves of the first tree of a row, and those of the others. -/
theorem leavesAmong_cons (origin : Nat) (k : Kind) (start : Nat) (above : List Frame) (here : Nat)
    (before : List Tree) (t : Tree) (ts : List Tree) :
    leavesAmong origin k start above here before (t :: ts) =
      leavesOf origin here (⟨k, start, before, ts⟩ :: above) t ++
        leavesAmong origin k start above (here + t.width) (t :: before) ts := by
  rw [leavesAmong, subtreesOf, List.filter_append]
  rfl

/-- Every tree has a leaf. -/
theorem leavesOf_ne_nil :
    (∀ t origin here above, leavesOf origin here above t ≠ []) ∧
    ∀ ts : List Tree, ts ≠ [] → ∀ origin k start above here before,
      leavesAmong origin k start above here before ts ≠ [] := by
  apply induct
  · intro k text origin here above
    exact List.cons_ne_nil _ _
  · intro k cs ih origin here above
    by_cases hcs : cs = []
    · subst hcs
      exact List.cons_ne_nil _ _
    · rw [leavesOf_node _ _ _ _ hcs]
      exact ih hcs _ _ _ _ _ _
  · intro hne
    exact absurd rfl hne
  · intro t ts ht _ _ origin k start above here before h
    rw [leavesAmong_cons] at h
    exact ht _ _ _ (List.append_eq_nil_iff.1 h).1

/-- The number of bytes of sites. -/
def widthOfSites (ss : List Site) : Nat := (ss.map (·.tree.width)).sum

/-- No sites have no bytes. -/
theorem widthOfSites_nil : widthOfSites [] = 0 := rfl

/-- The bytes of two rows of sites add up. -/
theorem widthOfSites_append (ss rs : List Site) :
    widthOfSites (ss ++ rs) = widthOfSites ss + widthOfSites rs := by
  simp [widthOfSites]

/-- The bytes of the first site and of the others add up. -/
theorem widthOfSites_cons (s : Site) (ss : List Site) :
    widthOfSites (s :: ss) = s.tree.width + widthOfSites ss := by
  simp [widthOfSites]

/-- The leaves of a tree have its width, and its tokens. -/
theorem leaves_width :
    (∀ t origin here above, widthOfSites (leavesOf origin here above t) = t.width) ∧
    ∀ ts origin k start above here before,
      widthOfSites (leavesAmong origin k start above here before ts) = widthAll ts := by
  apply induct
  · intro k s origin here above
    simp [leavesOf_token, widthOfSites]
  · intro k cs ih origin here above
    by_cases hcs : cs = []
    · subst hcs
      simp [leavesOf_empty, widthOfSites]
    · rw [leavesOf_node _ _ _ _ hcs, ih, width]
  · intro origin k start above here before
    rfl
  · intro t ts ht hts origin k start above here before
    rw [leavesAmong_cons, widthOfSites_append, ht, hts, widthAll]

/-- The leaves of a tree hold its tokens, in order. -/
theorem leaves_tokens :
    (∀ t origin here above, (leavesOf origin here above t).flatMap (·.tree.tokens) = t.tokens) ∧
    ∀ ts origin k start above here before,
      (leavesAmong origin k start above here before ts).flatMap (·.tree.tokens) = tokensAll ts := by
  apply induct
  · intro k s origin here above
    simp [leavesOf_token]
  · intro k cs ih origin here above
    by_cases hcs : cs = []
    · subst hcs
      simp [leavesOf_empty]
    · rw [leavesOf_node _ _ _ _ hcs, ih, Tree.tokens]
  · intro origin k start above here before
    rfl
  · intro t ts ht hts origin k start above here before
    rw [leavesAmong_cons, List.flatMap_append, ht, hts, tokensAll]

/-! ## Neighbours -/

/-- The leaves to the left of the trees of a row that are still to come. -/
theorem row_take_leaves_succ {origin : Nat} {k : Kind} {start : Nat} {above : List Frame}
    {here : Nat} {before ts : List Tree} {t : Tree} (hhere : here = start + widthAll before.reverse) :
    ((row origin k start above start [] (before.reverse ++ t :: ts)).take
      (before.length + 1)).flatMap leaves =
    ((row origin k start above start [] (before.reverse ++ t :: ts)).take
      before.length).flatMap leaves ++ leavesOf origin here (⟨k, start, before, ts⟩ :: above) t := by
  have hrow := row_take_succ origin k start above start [] before.reverse t ts
  rw [List.length_reverse, List.reverse_reverse, List.append_nil, ← hhere] at hrow
  rw [hrow, List.flatMap_append]
  simp [leaves_eq]

/-- What is asked of a leaf `s` with `left` before it and `right` behind it: it starts where `left`
ends, and its walks go through them and on through what surrounds the tree. -/
structure Walks (s : Site) (here : Nat) (left right outerLeft outerRight : List Site) : Prop where
  start : s.start = here + widthOfSites left
  before : leavesBefore s.origin s.tree s.above = outerLeft ++ left
  after : leavesAfter s.origin s.tree s.start s.above = right ++ outerRight

/-- A tree that is a leaf walks through what surrounds it. -/
theorem walks_of_single {s r : Site} {here : Nat} {left right : List Site}
    (h : [s] = left ++ r :: right) (hstart : s.start = here) :
    Walks r here left right (leavesBefore s.origin s.tree s.above)
      (leavesAfter s.origin s.tree s.start s.above) := by
  cases left with
  | nil =>
      obtain ⟨rfl, rfl⟩ : s = r ∧ right = [] := by simpa [eq_comm] using h
      exact ⟨by simp [hstart, widthOfSites], by simp, rfl⟩
  | cons l left => simp at h

/-- An element of two lists in a row lies in the first or in the second. -/
theorem append_eq_append_cons_cases {α : Type} {xs ys left right : List α} {a : α}
    (h : xs ++ ys = left ++ a :: right) :
    (∃ more, xs = left ++ a :: more ∧ right = more ++ ys) ∨
      ∃ more, left = xs ++ more ∧ ys = more ++ a :: right := by
  rcases List.append_eq_append_iff.1 h with ⟨more, hleft, hys⟩ | ⟨more, hxs, hcons⟩
  · exact Or.inr ⟨more, hleft, hys⟩
  · cases more with
    | nil => exact Or.inr ⟨[], by simpa using hxs.symm, by simpa using hcons.symm⟩
    | cons b more =>
        obtain ⟨rfl, hright⟩ := List.cons.inj hcons
        exact Or.inl ⟨more, hxs, hright⟩

/-- **The walks of a leaf**, by induction on the tree and on rows: what the frame next above
adds is what stands beside the tree in its row. -/
theorem leaves_walk :
    (∀ t origin here above left s right, leavesOf origin here above t = left ++ s :: right →
      Walks s here left right (leavesBefore origin t above)
        (leavesAfter origin t here above)) ∧
    ∀ ts origin k start above here before left s right,
      here = start + widthAll before.reverse →
      leavesAmong origin k start above here before ts = left ++ s :: right →
      Walks s here left right
        (leavesBefore origin (.node k (before.reverse ++ ts)) above ++
          ((row origin k start above start [] (before.reverse ++ ts)).take
            before.length).flatMap leaves)
        (leavesAfter origin (.node k (before.reverse ++ ts)) start above) := by
  apply induct
  · intro k text origin here above left s right h
    exact walks_of_single h rfl
  · intro k cs ih origin here above left s right h
    by_cases hcs : cs = []
    · subst hcs
      exact walks_of_single h rfl
    · rw [leavesOf_node _ _ _ _ hcs] at h
      simpa using ih origin k here above here [] left s right (by simp [widthAll]) h
  · intro origin k start above here before left s right _ h
    simp [leavesAmong, subtreesOf] at h
  · intro t ts ht hts origin k start above here before left s right hhere h
    rw [leavesAmong_cons] at h
    rcases append_eq_append_cons_cases h with ⟨more, ht', rfl⟩ | ⟨more, rfl, hts'⟩
    · -- the leaf lies below `t`, whose frame leads to the rest of the row
      have hwalks := ht origin here (⟨k, start, before, ts⟩ :: above) left s more ht'
      refine ⟨hwalks.start, hwalks.before.trans rfl, ?_⟩
      rw [hwalks.after, List.append_assoc]
      rfl
    · -- the leaf lies further right, and `t` is one of the trees before it
      have hhere' : here + t.width = start + widthAll (t :: before).reverse := by
        rw [List.reverse_cons, widthAll_append, hhere]
        simp [widthAll, Nat.add_assoc]
      have hwalks := hts origin k start above (here + t.width) (t :: before) more s right hhere' hts'
      rw [List.reverse_cons, List.append_assoc, List.singleton_append, List.length_cons,
        row_take_leaves_succ hhere] at hwalks
      refine ⟨?_, ?_, hwalks.after⟩
      · rw [hwalks.start, widthOfSites_append, leaves_width.1, Nat.add_assoc]
      · rw [hwalks.before]
        simp only [List.append_assoc]

/-- **A walk from a leaf goes through the list of leaves.** -/
theorem walk_eq {origin : Nat} {t : Tree} {s : Site} {left right : List Site}
    (h : (top origin t).leaves = left ++ s :: right) :
    s.start = widthOfSites left ∧ s.preceding = left.reverse ∧ s.following = right := by
  have hwalks := leaves_walk.1 t origin 0 [] left s right h
  refine ⟨by simpa using hwalks.start, ?_, ?_⟩
  · rw [preceding, hwalks.before]
    rfl
  · rw [following, hwalks.after]
    simp [leavesAfter]

/-! ## Sites below and above -/

/-- What holds of every node of a tree holds of every node below its sites. -/
theorem everyNode_of_mem {P : Kind → List Tree → Prop} :
    (∀ t origin here above, t.EveryNode P → ∀ s ∈ subtreeOf origin here above t,
      s.tree.EveryNode P) ∧
    ∀ ts origin k start above here before, EveryNodeAmong P ts →
      ∀ s ∈ subtreesOf origin k start above here before ts, s.tree.EveryNode P := by
  apply induct
  · intro k text origin here above h s hs
    rw [subtreeOf, List.mem_singleton] at hs
    rw [hs]
    exact h
  · intro k cs ih origin here above h s hs
    rw [subtreeOf] at hs
    rcases List.mem_cons.1 hs with rfl | hs
    · exact h
    · exact ih origin k here above here [] h.2 s hs
  · intro origin k start above here before _ s hs
    simp [subtreesOf] at hs
  · intro t ts ht hts origin k start above here before h s hs
    rw [subtreesOf] at hs
    rcases List.mem_append.1 hs with hs | hs
    · exact ht _ _ _ h.1 s hs
    · exact hts _ _ _ _ _ _ h.2 s hs

/-- The leaves of a site stand together among the leaves of the tree. -/
theorem leaves_of_mem :
    (∀ t origin here above, ∀ s ∈ subtreeOf origin here above t,
      ∃ left right, leavesOf origin here above t = left ++ (s.leaves ++ right)) ∧
    ∀ ts origin k start above here before,
      ∀ s ∈ subtreesOf origin k start above here before ts,
        ∃ left right, leavesAmong origin k start above here before ts =
          left ++ (s.leaves ++ right) := by
  apply induct
  · intro k text origin here above s hs
    rw [subtreeOf, List.mem_singleton] at hs
    exact ⟨[], [], by rw [hs, leaves_eq]; simp⟩
  · intro k cs ih origin here above s hs
    rw [subtreeOf] at hs
    rcases List.mem_cons.1 hs with rfl | hs
    · exact ⟨[], [], by rw [leaves_eq]; simp⟩
    · have hcs : cs ≠ [] := by
        rintro rfl
        simp [subtreesOf] at hs
      rw [leavesOf_node _ _ _ _ hcs]
      exact ih origin k here above here [] s hs
  · intro origin k start above here before s hs
    simp [subtreesOf] at hs
  · intro t ts ht hts origin k start above here before s hs
    rw [subtreesOf] at hs
    rw [leavesAmong_cons]
    rcases List.mem_append.1 hs with hs | hs
    · obtain ⟨left, right, hleaves⟩ := ht _ _ _ s hs
      exact ⟨left, right ++ leavesAmong origin k start above (here + t.width) (t :: before) ts,
        by rw [hleaves]; simp only [List.append_assoc]⟩
    · obtain ⟨left, right, hleaves⟩ := hts _ _ _ _ _ _ s hs
      exact ⟨leavesOf origin here (⟨k, start, before, ts⟩ :: above) t ++ left, right,
        by rw [hleaves]; simp only [List.append_assoc]⟩

/-- The sites above a site and above those. -/
theorem ancestors_suffix {p s : Site} (h : p ∈ s.ancestors) : p.ancestors <:+ s.ancestors := by
  obtain ⟨tree, start, above, origin⟩ := s
  induction above generalizing tree start with
  | nil =>
      obtain rfl : p = _ := List.mem_singleton.1 h
      exact List.suffix_rfl
  | cons f fs ih =>
      rcases List.mem_cons.1 h with rfl | h
      · exact List.suffix_rfl
      · exact (ih _ _ h).trans (List.suffix_cons _ _)

/-- A site lies below the tree it was found in. -/
theorem ancestor_of_mem :
    (∀ t origin here above, ∀ s ∈ subtreeOf origin here above t,
      (⟨t, here, above, origin⟩ : Site) ∈ s.ancestors) ∧
    ∀ ts origin k start above here before,
      ∀ s ∈ subtreesOf origin k start above here before ts,
        (⟨.node k (before.reverse ++ ts), start, above, origin⟩ : Site) ∈ s.ancestors := by
  apply induct
  · intro k text origin here above s hs
    rw [subtreeOf, List.mem_singleton] at hs
    rw [hs]
    exact List.mem_cons_self
  · intro k cs ih origin here above s hs
    rw [subtreeOf] at hs
    rcases List.mem_cons.1 hs with rfl | hs
    · exact List.mem_cons_self
    · exact ih origin k here above here [] s hs
  · intro origin k start above here before s hs
    simp [subtreesOf] at hs
  · intro t ts ht hts origin k start above here before s hs
    rw [subtreesOf] at hs
    rcases List.mem_append.1 hs with hs | hs
    · refine (ancestors_suffix (ht _ _ _ s hs)).subset ?_
      exact List.mem_cons_of_mem _ List.mem_cons_self
    · have habove := hts _ _ _ _ _ _ s hs
      rwa [List.reverse_cons, List.append_assoc, List.singleton_append] at habove

/-- The leaves of one site come before those of another in a list of leaves. -/
def Precedes (m n : Site) (ls : List Site) : Prop :=
  ∃ left between right, ls = left ++ (m.leaves ++ (between ++ (n.leaves ++ right)))

/-- What comes before something does so in a longer list. -/
theorem Precedes.append_right {m n : Site} {ls : List Site} (h : Precedes m n ls)
    (more : List Site) : Precedes m n (ls ++ more) := by
  obtain ⟨left, between, right, rfl⟩ := h
  exact ⟨left, between, right ++ more, by simp only [List.append_assoc]⟩

/-- The same with more leaves in front. -/
theorem Precedes.append_left {m n : Site} {ls : List Site} (h : Precedes m n ls)
    (more : List Site) : Precedes m n (more ++ ls) := by
  obtain ⟨left, between, right, rfl⟩ := h
  exact ⟨more ++ left, between, right, by simp only [List.append_assoc]⟩

/-- What lies in the first of two lists comes before what lies in the second. -/
theorem precedes_append {m n : Site} {ls rs left left' right right' : List Site}
    (hm : ls = left ++ (m.leaves ++ right)) (hn : rs = left' ++ (n.leaves ++ right')) :
    Precedes m n (ls ++ rs) :=
  ⟨left, right ++ left', right', by rw [hm, hn]; simp only [List.append_assoc]⟩

/-- **Two sites of a tree are one above the other, or one before the other.** -/
theorem subtree_cases :
    (∀ t origin here above, ∀ m ∈ subtreeOf origin here above t,
      ∀ n ∈ subtreeOf origin here above t,
        m ∈ n.ancestors ∨ n ∈ m.ancestors ∨ Precedes m n (leavesOf origin here above t) ∨
          Precedes n m (leavesOf origin here above t)) ∧
    ∀ ts origin k start above here before,
      ∀ m ∈ subtreesOf origin k start above here before ts,
      ∀ n ∈ subtreesOf origin k start above here before ts,
        m ∈ n.ancestors ∨ n ∈ m.ancestors ∨
          Precedes m n (leavesAmong origin k start above here before ts) ∨
          Precedes n m (leavesAmong origin k start above here before ts) := by
  apply induct
  · intro k text origin here above m hm n hn
    rw [subtreeOf, List.mem_singleton] at hm hn
    rw [hm, hn]
    exact Or.inl List.mem_cons_self
  · intro k cs ih origin here above m hm n hn
    have hbelow := ancestor_of_mem.1 (.node k cs) origin here above
    have hm' := hm
    have hn' := hn
    rw [subtreeOf] at hm' hn'
    rcases List.mem_cons.1 hm' with rfl | hm'
    · exact Or.inl (hbelow n hn)
    rcases List.mem_cons.1 hn' with rfl | hn'
    · exact Or.inr (Or.inl (hbelow m hm))
    have hcs : cs ≠ [] := by
      rintro rfl
      simp [subtreesOf] at hm'
    rw [leavesOf_node _ _ _ _ hcs]
    exact ih origin k here above here [] m hm' n hn'
  · intro origin k start above here before m hm
    simp [subtreesOf] at hm
  · intro t ts ht hts origin k start above here before m hm n hn
    rw [subtreesOf] at hm hn
    rw [leavesAmong_cons]
    rcases List.mem_append.1 hm with hm | hm <;> rcases List.mem_append.1 hn with hn | hn
    · refine (ht _ _ _ m hm n hn).imp_right (Or.imp_right ?_)
      exact Or.imp (fun h => h.append_right _) (fun h => h.append_right _)
    · obtain ⟨left, right, hm⟩ := leaves_of_mem.1 _ _ _ _ m hm
      obtain ⟨left', right', hn⟩ := leaves_of_mem.2 _ _ _ _ _ _ _ n hn
      exact Or.inr (Or.inr (Or.inl (precedes_append hm hn)))
    · obtain ⟨left, right, hm⟩ := leaves_of_mem.2 _ _ _ _ _ _ _ m hm
      obtain ⟨left', right', hn⟩ := leaves_of_mem.1 _ _ _ _ n hn
      exact Or.inr (Or.inr (Or.inr (precedes_append hn hm)))
    · refine (hts _ _ _ _ _ _ m hm n hn).imp_right (Or.imp_right ?_)
      exact Or.imp (fun h => h.append_left _) (fun h => h.append_left _)

end CodeMend.Site
