import CodeMend.Proofs.Edit.Grafting

/-!
# Insertions into a row of children

An insertion goes down to the highest node that has a border between its children at the offset.  A
border strictly inside a node, behind a child with text, lies in no node below and on no border
above: so the new trees become children of that very node (`splice_border`).  The node is then at
the same place with the longer row of children (`mem_rebuild`).
-/

namespace CodeMend

namespace Site

open Tree

/-! ## Where an insertion ends up -/

/-- At the border behind a tree with text, what is new comes before the trees that follow. -/
theorem insertAmong_border (new right : List Tree) {left : List Tree} {here : Nat}
    (hlast : ∀ t ∈ left.getLast?, 0 < t.width) :
    insertAmong here (here + widthAll left) new (left ++ right) = .ok (left ++ (new ++ right)) := by
  induction left generalizing here with
  | nil =>
      cases right with
      | nil => simp [insertAmong]
      | cons r right =>
          have hhere : here + widthAll [] ≤ here := Nat.le_of_eq (Nat.add_zero here)
          rw [List.nil_append, insertAmong, if_pos hhere]
          rfl
  | cons t left ih =>
      have hpos : 0 < widthAll (t :: left) := by
        have hmem : (t :: left).getLast (List.cons_ne_nil t left) ∈ t :: left := List.getLast_mem _
        have hwidth := hlast _ (List.getLast?_eq_some_getLast (List.cons_ne_nil t left))
        exact Nat.lt_of_lt_of_le hwidth (width_le_widthAll hmem)
      have hrest : ∀ u ∈ left.getLast?, 0 < u.width := by
        intro u hu
        refine hlast u ?_
        rw [List.getLast?_cons, Option.mem_def.1 hu]
        rfl
      have hsum : here + widthAll (t :: left) = here + t.width + widthAll left := by
        rw [widthAll, Nat.add_assoc]
      rw [List.cons_append, insertAmong, if_neg (by omega), if_neg (by omega), hsum, ih hrest]
      rfl

/-- Inserting at a border strictly inside a node, in a tree and in a row that contain the node. -/
theorem insert_border (new : List Tree) {k : Kind} {left right : List Tree}
    (hlast : ∀ t ∈ left.getLast?, 0 < t.width) (hleft : 0 < widthAll left)
    (hright : 0 < widthAll right) :
    (∀ t origin here above, ∀ s ∈ subtreeOf origin here above t, s.tree = .node k (left ++ right) →
      ∃ t', insertIn here (s.start + widthAll left) new t = .ok t' ∧
        rebuild (.node k (left ++ (new ++ right))) s.above = rebuild t' above) ∧
    ∀ ts origin l start above here before, ∀ s ∈ subtreesOf origin l start above here before ts,
      s.tree = .node k (left ++ right) →
      ∃ ts', insertAmong here (s.start + widthAll left) new ts = .ok ts' ∧
        rebuild (.node k (left ++ (new ++ right))) s.above =
          rebuild (.node l (before.reverse ++ ts')) above := by
  have hwidth {s : Site} (htree : s.tree = .node k (left ++ right)) :
      s.stop = s.start + (widthAll left + widthAll right) := by
    rw [stop_eq, htree, width, widthAll_append]
  apply induct
  · intro l text origin here above s hs htree
    rw [List.mem_singleton.1 hs] at htree
    cases htree
  · intro l cs ih origin here above s hs htree
    rcases List.mem_cons.1 hs with rfl | hs
    · obtain ⟨rfl, rfl⟩ := Tree.node.inj htree
      refine ⟨_, ?_, rfl⟩
      rw [insertIn, insertAmong_border new right hlast]
      rfl
    · obtain ⟨cs', hinsert, hrebuild⟩ := ih origin l here above here [] s hs htree
      exact ⟨.node l cs', by rw [insertIn, hinsert]; rfl, hrebuild⟩
  · intro origin l start above here before s hs
    cases hs
  · intro t ts ht hts origin l start above here before s hs htree
    have hstop := hwidth htree
    rcases List.mem_append.1 hs with hs | hs
    · obtain ⟨hle, hge⟩ := subtree_within.1 _ _ _ _ s hs
      obtain ⟨t', hinsert, hrebuild⟩ := ht origin here _ s hs htree
      refine ⟨t' :: ts, ?_, hrebuild⟩
      rw [insertAmong, if_neg (by omega), if_pos (by omega), hinsert]
      rfl
    · have hstart := (subtree_within.2 _ _ _ _ _ _ _ s hs).1
      obtain ⟨ts', hinsert, hrebuild⟩ := hts origin l start above _ (t :: before) s hs htree
      refine ⟨t :: ts', ?_, ?_⟩
      · rw [insertAmong, if_neg (by omega), if_neg (by omega), hinsert]
        rfl
      · rw [hrebuild, List.reverse_cons, List.append_assoc, List.singleton_append]

section Splice

variable {origin : Nat} {t : Tree} {s : Site} {k : Kind} {left right : List Tree}

/-- **An insertion at a border inside a node** makes what is new children of that node. -/
theorem splice_border (hs : s ∈ (top origin t).subtree) (htree : s.tree = .node k (left ++ right))
    (hlast : ∀ t ∈ left.getLast?, 0 < t.width) (hleft : left ≠ []) (hright : 0 < widthAll right)
    (r : Replacement) :
    t.splice (.insert (s.start + widthAll left) r) =
      .ok (rebuild (.node k (left ++ (r.elements ++ right))) s.above) := by
  have hpos : 0 < widthAll left := by
    have hwidth := hlast _ (List.getLast?_eq_some_getLast hleft)
    exact Nat.lt_of_lt_of_le hwidth (width_le_widthAll (List.getLast_mem hleft))
  obtain ⟨t', hinsert, hrebuild⟩ :=
    (insert_border r.elements hlast hpos hright).1 t origin 0 [] s hs htree
  have hempty : (Span.point (s.start + widthAll left)).isEmpty = true := by
    simp [Span.point, Span.isEmpty]
  rw [splice, Splice.insert]
  dsimp only
  rw [if_pos hempty]
  exact hinsert.trans (congrArg Except.ok hrebuild.symm)

/-- What comes behind a child in its place becomes a child of the same node. -/
theorem graft_behind {c : Site} {more : List Tree} {lefts rights : List Site}
    (hsplit : s.children = lefts ++ c :: rights) :
    c.graft (c.tree :: more) = rebuild (.node s.kind
      ((lefts.map tree ++ [c.tree]) ++ (more ++ rights.map tree))) s.above := by
  rw [graft, (above_of_split hsplit).2]
  simp only [List.reverse_reverse, List.cons_append, List.append_assoc, List.nil_append]

end Splice

/-! ## The place afterwards -/

/-- Do the frames say where the tree in the gap starts? -/
def Placed : Nat → List Frame → Prop
  | start, [] => start = 0
  | start, f :: fs => start = f.start + widthAll f.before.reverse ∧ Placed f.start fs

/-- Every site found in a tree starts where its frames say, by induction on the tree and on
rows. -/
theorem placed_of_mem :
    (∀ t origin here above, ∀ s ∈ subtreeOf origin here above t, Placed here above →
      Placed s.start s.above) ∧
    ∀ ts origin k start above here before, ∀ s ∈ subtreesOf origin k start above here before ts,
      here = start + widthAll before.reverse → Placed start above → Placed s.start s.above := by
  apply induct
  · intro k text origin here above s hs hplaced
    rwa [List.mem_singleton.1 hs]
  · intro k cs ih origin here above s hs hplaced
    rcases List.mem_cons.1 hs with rfl | hs
    · exact hplaced
    · exact ih origin k here above here [] s hs rfl hplaced
  · intro origin k start above here before s hs
    cases hs
  · intro t ts ht hts origin k start above here before s hs hhere hplaced
    rcases List.mem_append.1 hs with hs | hs
    · exact ht origin here _ s hs ⟨hhere, hplaced⟩
    · refine hts origin k start above _ (t :: before) s hs ?_ hplaced
      rw [List.reverse_cons, widthAll_append, widthAll, widthAll, hhere]
      omega

/-- A tree in the gap of its frame is a child of the node that the frame makes of it. -/
theorem mem_children_close {t : Tree} {start origin : Nat} {f : Frame} (fs : List Frame)
    (h : start = f.start + widthAll f.before.reverse) :
    (⟨t, start, f :: fs, origin⟩ : Site) ∈ (⟨Frame.close f t, f.start, fs, origin⟩ : Site).children := by
  obtain ⟨left, r, right, hsplit, hleft, hr, hright⟩ :=
    exists_split (s := ⟨Frame.close f t, f.start, fs, origin⟩) rfl
  have habove := (above_of_split hsplit).2
  have hstart := start_of_split hsplit
  have hchild : r ∈ (⟨Frame.close f t, f.start, fs, origin⟩ : Site).children := by
    rw [hsplit]
    simp
  have hparent := parent?_of_mem_children hchild
  obtain ⟨tree, start', above, origin'⟩ := r
  obtain rfl : tree = t := hr
  rw [hleft, hright, List.reverse_reverse] at habove
  rw [hleft] at hstart
  obtain rfl : start' = start := hstart.trans h.symm
  obtain rfl : above = f :: fs := habove
  obtain rfl : origin' = origin := congrArg Site.origin (Option.some.inj hparent)
  exact hchild

/-- A site is one of the children of its parent. -/
theorem mem_children_of_parent? {origin : Nat} {t : Tree} {s p : Site}
    (hs : s ∈ (top origin t).subtree) (hp : s.parent? = some p) : s ∈ p.children := by
  have hplaced := placed_of_mem.1 t origin 0 [] s hs rfl
  obtain ⟨tree, start, above, stamp⟩ := s
  cases above with
  | nil => cases hp
  | cons f fs =>
      obtain rfl := Option.some.inj hp
      exact mem_children_close fs hplaced.1

/-- A tree put between the trees of its frames is a site of the whole. -/
theorem mem_rebuild_of_placed {origin : Nat} {fs : List Frame} {t : Tree} {start : Nat}
    (h : Placed start fs) :
    (⟨t, start, fs, origin⟩ : Site) ∈ (top origin (rebuild t fs)).subtree := by
  induction fs generalizing t start with
  | nil =>
      obtain rfl : start = 0 := h
      exact mem_subtree_self _
  | cons f fs ih =>
      exact subtree_trans.1 _ _ _ _ _ (ih (t := Frame.close f t) h.2) _
        (mem_subtree_of_mem_children (mem_children_close fs h.1))

/-- Whatever stands in the place of a site stands at its place. -/
theorem mem_rebuild {origin : Nat} {t : Tree} {s : Site} (hs : s ∈ (top origin t).subtree)
    (new : Tree) (origin' : Nat) :
    (⟨new, s.start, s.above, origin'⟩ : Site) ∈ (top origin' (rebuild new s.above)).subtree :=
  mem_rebuild_of_placed (placed_of_mem.1 t origin 0 [] s hs rfl)

/-! ## The tokens at a site -/

/-- The tokens of a site are those of the whole tree at its offset. -/
theorem tokens_split :
    (∀ t origin here above, ∀ s ∈ subtreeOf origin here above t, ∃ front back,
      t.tokens = front ++ (s.tree.tokens ++ back) ∧ s.start = here + widthOf front) ∧
    ∀ ts origin k start above here before, ∀ s ∈ subtreesOf origin k start above here before ts,
      ∃ front back, tokensAll ts = front ++ (s.tree.tokens ++ back) ∧
        s.start = here + widthOf front := by
  apply induct
  · intro k text origin here above s hs
    rw [List.mem_singleton.1 hs]
    exact ⟨[], [], by simp, rfl⟩
  · intro k cs ih origin here above s hs
    rcases List.mem_cons.1 hs with rfl | hs
    · exact ⟨[], [], by simp, rfl⟩
    · exact ih origin k here above here [] s hs
  · intro origin k start above here before s hs
    cases hs
  · intro t ts ht hts origin k start above here before s hs
    rcases List.mem_append.1 hs with hs | hs
    · obtain ⟨front, back, htokens, hstart⟩ := ht origin here _ s hs
      exact ⟨front, back ++ tokensAll ts, by simp [tokensAll, htokens], hstart⟩
    · obtain ⟨front, back, htokens, hstart⟩ := hts origin k start above _ (t :: before) s hs
      refine ⟨t.tokens ++ front, back, by simp [tokensAll, htokens], ?_⟩
      rw [hstart, widthOf_append, width_eq.1, Nat.add_assoc]

/-- **The text of a site is the part of the whole text at its span.** -/
theorem text_at_span {origin : Nat} {t : Tree} {s : Site} (hs : s ∈ (top origin t).subtree) :
    ∃ before after, t.text = before ++ s.text ++ after ∧
      s.span = .ofLength before.utf8ByteSize s.text.utf8ByteSize := by
  obtain ⟨front, back, htokens, hstart⟩ := tokens_split.1 t origin 0 [] s hs
  refine ⟨textOf front, textOf back, ?_, ?_⟩
  · show textOf t.tokens = _
    rw [htokens, textOf_append, textOf_append, ← String.append_assoc]
    rfl
  · rw [span, hstart, Nat.zero_add, width_eq.1]
    rfl

end Site

end CodeMend
