import CodeMend.Proofs.Edit.Splicing
import CodeMend.Proofs.Syntax.Paths

/-!
# Replacing a node is grafting

A splice finds its place by a span and the kind of the node to be replaced.  If no node above has
both, it replaces that very node: the rest of the tree, seen from the node, stays as it is
(`splice_graft`).
-/

namespace CodeMend

namespace Site

open Tree

/-! ## Children and their frames -/

/-- The frame of a child, given the children on both sides of it. -/
theorem above_of_split {s r : Site} {left right : List Site} (h : s.children = left ++ r :: right) :
    s.tree = .node s.kind (left.map tree ++ r.tree :: right.map tree) ∧
      r.above = ⟨s.kind, s.start, (left.map tree).reverse, right.map tree⟩ :: s.above := by
  have hrow : ∀ (left : List Site) (ts before : List Tree) (here : Nat),
      row s.origin s.kind s.start s.above here before ts = left ++ r :: right →
        r.above = ⟨s.kind, s.start, (left.map tree).reverse ++ before, right.map tree⟩ ::
          s.above := by
    intro left
    induction left with
    | nil =>
        intro ts before here hsplit
        cases ts with
        | nil => cases hsplit
        | cons t ts =>
            obtain ⟨rfl, rfl⟩ := List.cons.inj hsplit
            rw [map_tree_row]
            rfl
    | cons l left ih =>
        intro ts before here hsplit
        cases ts with
        | nil => cases hsplit
        | cons t ts =>
            obtain ⟨rfl, hrest⟩ := List.cons.inj hsplit
            rw [ih ts _ _ hrest]
            simp
  refine ⟨?_, by simpa using hrow left _ _ _ h⟩
  have htrees := map_tree_children s
  rw [h, List.map_append, List.map_cons] at htrees
  obtain ⟨tree, start, above, origin⟩ := s
  cases tree with
  | token k text => simp [Tree.children] at htrees
  | node k cs => exact congrArg (Tree.node k) htrees.symm

/-- Where a child starts, given the children to the left of it. -/
theorem start_of_split {s r : Site} {left right : List Site} (h : s.children = left ++ r :: right) :
    r.start = s.start + widthAll (left.map tree) := by
  have hrow : ∀ (left : List Site) (ts before : List Tree) (here : Nat),
      row s.origin s.kind s.start s.above here before ts = left ++ r :: right →
        r.start = here + widthAll (left.map tree) := by
    intro left
    induction left with
    | nil =>
        intro ts before here hsplit
        cases ts with
        | nil => cases hsplit
        | cons t ts =>
            obtain ⟨rfl, -⟩ := List.cons.inj hsplit
            rfl
    | cons l left ih =>
        intro ts before here hsplit
        cases ts with
        | nil => cases hsplit
        | cons t ts =>
            obtain ⟨rfl, hrest⟩ := List.cons.inj hsplit
            rw [ih ts _ _ hrest, List.map_cons, widthAll, Nat.add_assoc]
  exact hrow left _ _ _ h

/-- The children of a site, on both sides of one of its trees. -/
theorem exists_split {s : Site} {k : Kind} {before after : List Tree} {t : Tree}
    (h : s.tree = .node k (before ++ t :: after)) : ∃ left r right,
      s.children = left ++ r :: right ∧ left.map tree = before ∧ r.tree = t ∧
        right.map tree = after := by
  have htrees := map_tree_children s
  rw [h] at htrees
  obtain ⟨left, rest, hsplit, hleft, hrest⟩ := List.map_eq_append_iff.1 htrees
  obtain ⟨r, right, rfl, hr, hright⟩ := List.map_eq_cons_iff.1 hrest
  exact ⟨left, r, right, hsplit, hleft, hr, hright⟩

/-! ## Grafting -/

/-- The tree whose frames are given, with a tree in the gap. -/
def rebuild : Tree → List Frame → Tree
  | t, [] => t
  | t, f :: fs => rebuild (Frame.close f t) fs

/-- The tree in which other trees stand in the place of the site. -/
def graft (s : Site) (new : List Tree) : Tree :=
  match s.above with
  | [] => s.tree
  | f :: fs => rebuild (.node f.kind (f.before.reverse ++ (new ++ f.after))) fs

/-- Putting a site back where it was found gives the whole tree, by induction on the tree and on
rows. -/
theorem rebuild_mem :
    (∀ t origin here above, ∀ s ∈ subtreeOf origin here above t,
      rebuild s.tree s.above = rebuild t above) ∧
    ∀ ts origin k start above here before,
      ∀ s ∈ subtreesOf origin k start above here before ts,
        rebuild s.tree s.above = rebuild (.node k (before.reverse ++ ts)) above := by
  apply induct
  · intro k text origin here above s hs
    obtain rfl := List.mem_singleton.1 hs
    rfl
  · intro k cs ih origin here above s hs
    rcases List.mem_cons.1 hs with rfl | hs
    · rfl
    · exact ih origin k here above here [] s hs
  · intro origin k start above here before s hs
    cases hs
  · intro t ts ht hts origin k start above here before s hs
    rcases List.mem_append.1 hs with hs | hs
    · exact ht origin here _ s hs
    · have hrest := hts origin k start above _ (t :: before) s hs
      rwa [List.reverse_cons, List.append_assoc, List.singleton_append] at hrest

/-- The tree of a site and its frames make up the whole tree. -/
theorem rebuild_eq {origin : Nat} {t : Tree} {s : Site} (hs : s ∈ (top origin t).subtree) :
    rebuild s.tree s.above = t := rebuild_mem.1 t origin 0 [] s hs

/-- The node is the topmost one with its span and kind. -/
def Topmost (s : Site) : Prop := ∀ p ∈ s.properAncestors, p.span = s.span → p.kind ≠ s.kind

/-- A node below that has the whole text of a tree is one that the tree wraps. -/
theorem wraps_of_mem :
    (∀ t origin here above, ∀ s ∈ subtreeOf origin here above t, s.isNode = true →
      s ≠ ⟨t, here, above, origin⟩ → s.tree.width = t.width → t.wraps s.kind = true) ∧
    ∀ ts origin k start above here before,
      ∀ s ∈ subtreesOf origin k start above here before ts, s.isNode = true →
        ∀ width, s.tree.width = width → widthAll ts ≤ width →
          wrapsAmong s.kind width ts = true := by
  apply induct
  · intro k text origin here above s hs _ hne
    exact absurd (List.mem_singleton.1 hs) hne
  · intro k cs ih origin here above s hs hnode hne hwidth
    rcases List.mem_cons.1 hs with rfl | hs
    · exact absurd rfl hne
    · exact ih origin k here above here [] s hs hnode _ hwidth (Nat.le_refl _)
  · intro origin k start above here before s hs
    cases hs
  · intro t ts ht hts origin k start above here before s hs hnode width hwidth hle
    rw [widthAll] at hle
    rw [wrapsAmong, Bool.or_eq_true]
    rcases List.mem_append.1 hs with hs | hs
    · left
      have hwithin := subtree_within.1 _ _ _ _ s hs
      rw [stop_eq] at hwithin
      have hsame : t.width = width := by omega
      by_cases hself : s = ⟨t, here, ⟨k, start, before, ts⟩ :: above, origin⟩
      · have htree : s.tree = t := by rw [hself]
        have hnode : t.isNode = true := htree ▸ hnode
        have hkind : s.kind = t.kind := by rw [kind, htree]
        simp [hnode, hsame, hkind]
      · have hwraps := ht origin here _ s hs hnode hself (by omega)
        have htnode : t.isNode = true := by
          cases t with
          | token l text => exact absurd (List.mem_singleton.1 hs) hself
          | node l cs => rfl
        simp [htnode, hsame, hwraps]
    · right
      exact hts origin k start above _ _ s hs hnode width hwidth (by omega)

/-- Behind the end of a span the row stays. -/
theorem replaceAmong_behind {here start stop : Nat} (hstart : start < here) (hstop : stop ≤ here)
    (target : Option Kind) (ts : List Tree) :
    replaceAmong here ⟨start, stop⟩ target none ts = .ok ts := by
  cases ts with
  | nil => rfl
  | cons t ts =>
      rw [replaceAmong, if_neg (by show ¬ here + t.width ≤ start; omega), if_pos hstop]
      rfl

/-- Replacing a node by its span and kind, in a tree and in a row. -/
theorem replace_graft (new : List Tree) :
    (∀ t origin here above, ∀ s ∈ subtreeOf origin here above t, s.isNode = true →
      0 < s.tree.width → s.Topmost → s ≠ ⟨t, here, above, origin⟩ → ∀ whole,
        ∃ t', replaceIn here whole s.span (some s.kind) new t = .ok t' ∧
          s.graft new = rebuild t' above) ∧
    ∀ ts origin k start above here before,
      ∀ s ∈ subtreesOf origin k start above here before ts, s.isNode = true →
        0 < s.tree.width → s.Topmost →
          ∃ ts', replaceAmong here s.span (some s.kind) (some new) ts = .ok ts' ∧
            s.graft new = rebuild (.node k (before.reverse ++ ts')) above := by
  apply induct
  · intro k text origin here above s hs _ _ _ hne
    exact absurd (List.mem_singleton.1 hs) hne
  · intro k cs ih origin here above s hs hnode hwidth htop hne whole
    rcases List.mem_cons.1 hs with rfl | hs
    · exact absurd rfl hne
    · obtain ⟨cs', hreplace, hgraft⟩ := ih origin k here above here [] s hs hnode hwidth htop
      exact ⟨.node k cs', by rw [replaceIn, hreplace]; rfl, hgraft⟩
  · intro origin k start above here before s hs
    cases hs
  · intro t ts ht hts origin k start above here before s hs hnode hwidth htop
    have hspan : s.span = ⟨s.start, s.stop⟩ := rfl
    have hstop := stop_eq s
    rcases List.mem_append.1 hs with hs | hs
    · obtain ⟨hle, hge⟩ := subtree_within.1 _ _ _ _ s hs
      rw [replaceAmong, hspan]
      dsimp only
      rw [if_neg (by omega), if_neg (by omega)]
      by_cases hself : s = ⟨t, here, ⟨k, start, before, ts⟩ :: above, origin⟩
      · -- the tree itself goes, and nothing behind it is touched
        subst hself
        have hthere : here + t.width = (⟨t, here, ⟨k, start, before, ts⟩ :: above, origin⟩ :
          Site).stop := rfl
        have hstays : descends (some t.kind) t = false := by simp [descends]
        refine ⟨new ++ ts, ?_, rfl⟩
        rw [if_neg (Nat.lt_irrefl _), if_pos (Nat.le_of_eq hthere)]
        show (if (_ && descends (some t.kind) t) = true then _ else _) = _
        have hrest : replaceAmong (here + t.width) ⟨here, here + t.width⟩ none none ts = .ok ts :=
          replaceAmong_behind (Nat.lt_add_of_pos_right hwidth) (Nat.le_refl _) none ts
        rw [hstays, Bool.and_false, if_neg Bool.false_ne_true]
        show (new ++ ·) <$> replaceAmong (here + t.width) ⟨here, here + t.width⟩ none none ts = _
        rw [hrest]
        rfl
      -- the node is below this tree, which is entered whether or not their spans are the same
      · obtain ⟨t', hreplace, hgraft⟩ :=
          ht origin here _ s hs hnode hwidth htop hself ⟨s.start, s.stop⟩
        rw [hspan] at hreplace
        refine ⟨t' :: ts, ?_, hgraft⟩
        rw [Option.getD_some]
        split
        · split
          · rw [hreplace]; rfl
          · have hthere : here + t.width = s.stop := by omega
            rw [hthere, replaceAmong_behind (by omega) (Nat.le_refl _), hreplace]
            rfl
        · have hhere : here = s.start := by omega
          split
          · -- the tree has the same span, and the node is one that it wraps
            have hthere : here + t.width = s.stop := by omega
            have habove : (⟨t, here, ⟨k, start, before, ts⟩ :: above, origin⟩ : Site) ∈
                s.properAncestors :=
              (List.mem_cons.1 (ancestor_of_mem.1 _ _ _ _ s hs)).resolve_left (Ne.symm hself)
            have hkind : t.kind ≠ s.kind := htop _ habove (by
              show Span.ofLength here t.width = _
              rw [Span.ofLength, hthere, hhere, hspan])
            have hwraps := wraps_of_mem.1 _ _ _ _ s hs hnode hself (by omega)
            have htnode : t.isNode = true := by
              cases t with
              | token l text => exact absurd (List.mem_singleton.1 hs) hself
              | node l cs => rfl
            have hdescends : descends (some s.kind) t = true := by
              simp [descends, htnode, hwraps, Ne.symm hkind]
            rw [hthere, hhere, hdescends]
            rw [hhere] at hreplace
            simp only [beq_self_eq_true, Bool.and_self, if_true, hreplace]
            rfl
          · rw [← hhere] at hreplace ⊢
            rw [hreplace]; rfl
    -- the node is in a later tree of the row
    · have hstart := (subtree_within.2 _ _ _ _ _ _ _ s hs).1
      obtain ⟨ts', hreplace, hgraft⟩ := hts origin k start above _ (t :: before) s hs hnode hwidth htop
      refine ⟨t :: ts', ?_, ?_⟩
      · rw [replaceAmong, if_pos (show here + t.width ≤ s.span.start from hstart), hreplace]
        rfl
      · rw [hgraft, List.reverse_cons, List.append_assoc, List.singleton_append]

/-- **A splice with the span and the kind of a node replaces that node.** -/
theorem splice_graft {origin : Nat} {t : Tree} {s : Site} (hs : s ∈ (top origin t).subtree)
    (hnode : s.isNode = true) (hwidth : 0 < s.tree.width) (htop : s.Topmost)
    (hroot : s ≠ top origin t) (r : Replacement) :
    t.splice ⟨s.span, some s.kind, r⟩ = .ok (s.graft r.elements) := by
  obtain ⟨t', hreplace, hgraft⟩ := (replace_graft r.elements).1 t origin 0 [] s hs hnode hwidth htop
    hroot s.span
  have hempty : s.span.isEmpty = false := by
    simp only [Span.isEmpty, span, Span.ofLength]
    simp
    omega
  rw [splice, hempty]
  show replaceIn 0 s.span s.span (some s.kind) r.elements t = _
  rw [hreplace, hgraft]
  rfl

end Site

end CodeMend
