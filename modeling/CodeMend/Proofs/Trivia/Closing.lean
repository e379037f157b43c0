import CodeMend.Proofs.Edit.Insertion
import CodeMend.Proofs.Trivia.Ownership

/-!
# Tokens up to a closing brace

Behind a child of a node there may be nothing but tokens, the closing brace among them.  Then these
are what a walk from the end of the child meets first: so the next significant token is one of them
(`Tailed.next`), the trivia that trails the child stands right behind it (`Tailed.trailing`), and
what is inserted between them becomes a child of the node (`Tailed.splice`).
-/

namespace CodeMend

open Site Tree

/-! ## Leaves of a row -/

/-- The leaves of a row are those of its sites. -/
theorem leavesAmong_eq (origin : Nat) (k : Kind) (start : Nat) (above : List Frame) (here : Nat)
    (before ts : List Tree) : leavesAmong origin k start above here before ts =
      (row origin k start above here before ts).flatMap leaves := by
  induction ts generalizing here before with
  | nil => rfl
  | cons t ts ih =>
      rw [leavesAmong_cons, row, List.flatMap_cons, ih]
      rfl

/-- The leaves of a node with children are those of its children. -/
theorem leaves_of_children {s : Site} (h : s.children ≠ []) : s.leaves = s.children.flatMap leaves := by
  obtain ⟨tree, start, above, origin⟩ := s
  cases tree with
  | token k text => exact absurd rfl h
  | node k cs =>
      have hcs : cs ≠ [] := by
        rintro rfl
        exact h rfl
      rw [leaves_eq, leavesOf_node _ _ _ _ hcs, leavesAmong_eq]
      rfl

theorem leaves_of_isToken {s : Site} (h : s.isToken = true) : s.leaves = [s] := by
  obtain ⟨tree, start, above, origin⟩ := s
  cases tree with
  | token k text => rfl
  | node k cs => cases h

theorem flatMap_leaves {ss : List Site} (h : ∀ s ∈ ss, s.isToken = true) : ss.flatMap leaves = ss := by
  induction ss with
  | nil => rfl
  | cons s ss ih =>
      obtain ⟨hs, hss⟩ := List.forall_mem_cons.1 h
      rw [List.flatMap_cons, leaves_of_isToken hs, ih hss]
      rfl

/-- A child stops where the children up to it do. -/
theorem stop_of_split {s r : Site} {left right : List Site} (h : s.children = left ++ r :: right) :
    r.stop = s.start + widthAll (left.map tree ++ [r.tree]) := by
  rw [stop_eq, start_of_split h, widthAll_append, widthAll, widthAll]
  omega

theorem Clean.width_pos {root t : Site} (hroot : Clean root) (ht : t ∈ root.subtokens)
    (hkind : t.kind ≠ .endOfFile) : 0 < t.tree.width := by
  have hsolid := (hroot.solid t ht).resolve_right hkind
  rw [stop_eq] at hsolid
  omega

theorem kind_ne_of_isTrivia {s : Site} {k : Kind} (hk : k.isTrivia = false) (h : s.isTrivia = true) :
    s.kind ≠ k := by
  obtain ⟨tree, start, above, origin⟩ := s
  rintro rfl
  cases tree with
  | token k text => exact Bool.false_ne_true (hk.symm.trans h)
  | node k cs => cases h

/-- A line break ends what trails a token. -/
theorem getLast?_trailingTrivia {s newline : Site}
    (h : s.trailingTrivia.find? (·.kind == .newline) = some newline) :
    s.trailingTrivia.getLast? = some newline := by
  have hpart (run : List Site) (h : (trailingPart run).find? (·.kind == .newline) = some newline) :
      (trailingPart run).getLast? = some newline := by
    fun_induction trailingPart run with
    | case1 => cases h
    | case2 t ts hbreak => simpa [hbreak] using h
    | case3 t ts hbreak ih =>
        rw [List.getLast?_cons, ih (by simpa [hbreak] using h)]
        rfl
  unfold trailingTrivia at h ⊢
  split at h
  · cases h
  · next hsignificant =>
    rw [if_neg hsignificant]
    exact hpart _ h

/-! ## Tokens behind a child -/

/-- Behind the child `r` of a node stand tokens, the closing brace among them. -/
structure Tailed (s : Site) (left : List Site) (r : Site) (tail : List Site) : Prop where
  split : s.children = left ++ r :: tail
  tokens : ∀ t ∈ tail, t.isToken = true
  closing : ∃ t ∈ tail, t.kind = .rBrace

namespace Tailed

variable {root s r q : Site} {left tail : List Site}

/-- The same holds of a token further on, up to the brace. -/
theorem later {between : List Site} {x : Site} (h : Tailed s left r (between ++ x :: tail))
    (hbetween : ∀ t ∈ between, t.kind ≠ .rBrace) (hx : x.kind ≠ .rBrace) :
    Tailed s (left ++ r :: between) x tail := by
  refine ⟨by rw [h.split, List.append_assoc]; rfl, fun t ht => h.tokens t (by simp [ht]), ?_⟩
  obtain ⟨t, ht, hkind⟩ := h.closing
  rcases List.mem_append.1 ht with ht | ht
  · exact absurd hkind (hbetween t ht)
  · rcases List.mem_cons.1 ht with rfl | ht
    · exact absurd hkind hx
    · exact ⟨t, ht, hkind⟩

theorem mem_subtokens (h : Tailed s left r tail) (hs : s ∈ root.subtree) {t : Site} (ht : t ∈ tail) :
    t ∈ root.subtokens := by
  refine List.mem_filter.2 ⟨mem_subtree_child hs ?_, h.tokens t ht⟩
  rw [h.split]
  simp [ht]

/-- The first significant token behind the child, with the trivia before it. -/
theorem exists_significant (h : Tailed s left r tail) : ∃ run t rest, tail = run ++ t :: rest ∧
    (∀ r ∈ run, r.isTrivia = true) ∧ t.isSignificant = true := by
  obtain ⟨b, hb, hkind⟩ := h.closing
  have hsignificant : b.isSignificant = true := by
    obtain ⟨k, text, htree, htrivia⟩ := isTrivia_of_isToken (h.tokens b hb)
    rw [Site.kind, htree] at hkind
    rw [isSignificant, htrivia, show k = .rBrace from hkind]
    rfl
  obtain ⟨front, rest, hsplit⟩ := List.append_of_mem hb
  have hlast : ∀ s ∈ (front ++ [b]).getLast?, s.isSignificant = true := by simp [hsignificant]
  obtain ⟨run, t, more, hrun, htrivia, ht, -⟩ := split_significant hlast (by simp)
  exact ⟨run, t, more ++ rest, by rw [hsplit, List.append_cons, hrun]; simp, htrivia, ht⟩

/-- The tokens behind the child follow its last one. -/
theorem exists_subtokens (h : Tailed s left r tail) (hroot : Clean root) (hs : s ∈ root.subtree)
    (hlast : ∃ others, r.leaves = others ++ [q]) :
    ∃ before after, root.subtokens = before ++ q :: (tail ++ after) := by
  obtain ⟨others, hlast⟩ := hlast
  obtain ⟨before, after, hleaves⟩ :=
    leaves_of_mem.1 root.tree root.origin root.start root.above s hs
  have hchildren : s.leaves = left.flatMap leaves ++ (others ++ [q] ++ tail) := by
    rw [leaves_of_children (by rw [h.split]; simp), h.split, List.flatMap_append, List.flatMap_cons,
      hlast, flatMap_leaves h.tokens]
  refine ⟨before ++ (left.flatMap leaves ++ others), after, ?_⟩
  rw [← hroot.leaves, leaves_eq, hleaves, hchildren]
  simp only [List.append_assoc, List.cons_append, List.nil_append]

/-- **The next significant token** behind the child is one of them. -/
theorem next (h : Tailed s left r tail) (hroot : Clean root) (hs : s ∈ root.subtree)
    (hlast : ∃ others, r.leaves = others ++ [q]) :
    ∃ run t rest, tail = run ++ t :: rest ∧ (∀ r ∈ run, r.isTrivia = true) ∧
      t.isSignificant = true ∧ q.nextSignificant? = some t := by
  obtain ⟨before, after, hsplit⟩ := h.exists_subtokens hroot hs hlast
  obtain ⟨run, t, rest, htail, hrun, ht⟩ := h.exists_significant
  refine ⟨run, t, rest, htail, hrun, ht, ?_⟩
  have hnone : run.find? isSignificant = none := by
    refine List.find?_eq_none.2 fun r hr => ?_
    simp [isSignificant, hrun r hr]
  rw [nextSignificant?, hroot.chain.after before q (tail ++ after) hsplit, htail, List.append_assoc,
    List.find?_append, hnone, Option.none_or, List.cons_append, List.find?_cons_of_pos ht]

/-- **The trivia that trails the child** stands right behind it. -/
theorem trailing (h : Tailed s left r tail) (hroot : Clean root) (hs : s ∈ root.subtree)
    (hlast : ∃ others, r.leaves = others ++ [q]) (hq : q.isSignificant = true) :
    ∃ rest, tail = q.trailingTrivia ++ rest ∧ ∀ t ∈ q.trailingTrivia, t.isTrivia = true := by
  obtain ⟨before, after, hsplit⟩ := h.exists_subtokens hroot hs hlast
  obtain ⟨run, t, rest, htail, hrun, ht⟩ := h.exists_significant
  have htrailing : q.trailingTrivia = trailingPart run := by
    rw [hroot.chain.trailingTrivia_eq hsplit hq, htail, List.append_assoc, List.cons_append,
      takeWhile_trivia_append hrun ht]
  have hparts := trailingPart_append_leadingPart run
  refine ⟨leadingPart run ++ t :: rest, ?_, fun u hu => hrun u ?_⟩
  · rw [htrailing, ← List.append_assoc, hparts, htail]
  · rw [htrailing] at hu
    rw [← hparts]
    exact List.mem_append_left _ hu

/-- What stands behind the last piece of trivia that trails a token. -/
theorem behind_trailing (h : Tailed s left r tail) (hroot : Clean root) (hs : s ∈ root.subtree)
    (htoken : r.isToken = true) (hr : r.isSignificant = true) {t : Site}
    (ht : r.trailingTrivia.getLast? = some t) :
    ∃ left' tail', Tailed s left' t tail' ∧ t ∈ tail ∧ t.isTrivia = true ∧
      r.trailingSpan.stop = t.stop := by
  obtain ⟨rest, htail, htrivia⟩ :=
    h.trailing hroot hs ⟨[], leaves_of_isToken htoken⟩ hr
  obtain ⟨run, hrun⟩ := List.getLast?_eq_some_iff.1 ht
  have hopen {u : Site} (hu : u ∈ r.trailingTrivia) : u.kind ≠ .rBrace :=
    kind_ne_of_isTrivia rfl (htrivia u hu)
  refine ⟨left ++ r :: run, rest, ?_, by simp [htail, hrun], htrivia t (by simp [hrun]), ?_⟩
  · refine later (by rwa [htail, hrun, List.append_assoc] at h)
      (fun u hu => hopen (by simp [hrun, hu])) (hopen (by simp [hrun]))
  · rw [trailingSpan, ht]
    rfl

/-- **An insertion behind the child** makes what is new children of the node. -/
theorem splice {origin : Nat} {t : Tree} (h : Tailed s left r tail) (hroot : Clean (top origin t))
    (hs : s ∈ (top origin t).subtree) (hwidth : 0 < r.tree.width) (new : Replacement) :
    t.splice (.insert r.stop new) = .ok (rebuild (.node s.kind
      ((left.map tree ++ [r.tree]) ++ (new.elements ++ tail.map tree))) s.above) := by
  have htree : s.tree = .node s.kind ((left.map tree ++ [r.tree]) ++ tail.map tree) := by
    rw [(above_of_split h.split).1, List.append_cons]
  have hbehind : 0 < widthAll (tail.map tree) := by
    obtain ⟨b, hb, hkind⟩ := h.closing
    exact Nat.lt_of_lt_of_le (hroot.width_pos (h.mem_subtokens hs hb) (by rw [hkind]; decide))
      (width_le_widthAll (List.mem_map_of_mem hb))
  rw [stop_of_split h.split]
  exact splice_border hs htree (by simpa using hwidth) (by simp) hbehind new

end Tailed

end CodeMend
