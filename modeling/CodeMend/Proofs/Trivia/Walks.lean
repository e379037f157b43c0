import CodeMend.Proofs.Syntax.Paths
import CodeMend.Proofs.Trivia.Spans
import CodeMend.Proofs.Trivia.Tight

/-!
# Walks through a span

`tokensIn` looks up the token at the start of a span and goes on from token to token.  A walk sees the
leaves of the tree, and ends at the first one that is no token: a node that an error left empty.  So
of the tokens that have a byte in the span it finds a first part, and all of them if and only if no
empty node stands behind the start of the span and before the end of it and of the text
(`tokensIn_eq_iff`).  There are such texts (`not_tokensIn_eq`); in those without errors no node is
empty.
-/

namespace CodeMend

/-! ## Spans that meet -/

/-- Is there a byte in both spans? -/
def Span.Meets (s t : Span) : Prop := ∃ offset, s.contains offset ∧ t.contains offset

theorem Span.meets_iff {s t : Span} : s.Meets t ↔ max s.start t.start < min s.stop t.stop := by
  simp only [Meets, contains, Bool.and_eq_true, decide_eq_true_eq]
  constructor
  · rintro ⟨offset, hs, ht⟩
    omega
  · intro h
    exact ⟨max s.start t.start, by omega, by omega⟩

instance : DecidableRel Span.Meets := fun _ _ => decidable_of_iff' _ Span.meets_iff

namespace Site

open Tree

/-! ## Leaves -/

/-- Leaves come in the order of their routes. -/
theorem leaves_ahead :
    (∀ t origin here above, (leavesOf origin here above t).Pairwise
      (fun a b => Ahead a.route b.route)) ∧
    ∀ ts origin k start above here before,
      (leavesAmong origin k start above here before ts).Pairwise
        (fun a b => Ahead a.route b.route) := by
  apply induct
  · intro k text origin here above
    rw [leavesOf_token]
    exact List.pairwise_singleton _ _
  · intro k cs ih origin here above
    by_cases hcs : cs = []
    · rw [hcs, leavesOf_empty]
      exact List.pairwise_singleton _ _
    · rw [leavesOf_node _ _ _ _ hcs]
      exact ih origin k here above here []
  · intro origin k start above here before
    exact List.Pairwise.nil
  · intro t ts ht hts origin k start above here before
    rw [leavesAmong_cons]
    exact List.pairwise_append.2 ⟨ht _ _ _, hts _ _ _ _ _ _, fun a ha b hb =>
      route_parts (List.mem_filter.1 ha).1 (List.mem_filter.1 hb).1⟩

theorem leaves_nodup (s : Site) : s.leaves.Nodup := by
  refine (leaves_ahead.1 s.tree s.origin s.start s.above).imp fun {a b} hahead hab => ?_
  rw [hab] at hahead
  exact (not_ahead_of_isPrefix List.prefix_rfl).1 hahead

theorem tiled_leaves (origin : Nat) (t : Tree) : Tiled (top origin t).leaves :=
  fun _ _ _ h => (walk_eq h).1

theorem isLeaf_of_isToken {s : Site} (h : s.isToken = true) : s.isLeaf = true := by
  unfold isLeaf
  cases htree : s.tree with
  | token k text => rfl
  | node k cs => simp [isToken, Tree.isToken, htree] at h

/-- The tokens are leaves. -/
theorem filter_leaves (s : Site) : s.leaves.filter isToken = s.subtokens := by
  rw [leaves, List.filter_filter]
  refine List.filter_congr fun r _ => ?_
  cases htoken : r.isToken with
  | false => rfl
  | true => rw [isLeaf_of_isToken htoken]; rfl

theorem subtokens_sublist (s : Site) : s.subtokens.Sublist s.leaves :=
  s.filter_leaves ▸ List.filter_sublist

theorem subtokens_nodup (s : Site) : s.subtokens.Nodup :=
  s.leaves_nodup.sublist s.subtokens_sublist

/-- A leaf with text is a token. -/
theorem isToken_of_width_pos {s : Site} (hleaf : s.isLeaf = true) (h : 0 < s.tree.width) :
    s.isToken = true := by
  cases htree : s.tree with
  | token k text => simp [isToken, Tree.isToken, htree]
  | node k cs =>
      obtain rfl : cs = [] := by simpa [isLeaf, Tree.children, htree] using hleaf
      simp [htree, width, widthAll] at h

/-- The other leaves are the nodes without children. -/
theorem empty_iff {s n : Site} :
    n ∈ s.subnodes ∧ n.tree.children = [] ↔ n ∈ s.leaves ∧ n.isToken = false := by
  simp only [subnodes, leaves, List.mem_filter, isLeaf, List.isEmpty_iff]
  cases htree : n.tree with
  | token k text => simp [isNode, Tree.isNode, isToken, Tree.isToken, htree]
  | node k cs => simp [isNode, Tree.isNode, isToken, Tree.isToken, htree]

variable {origin : Nat} {t : Tree} {bounds : Span}

/-- The token at an offset. -/
theorem exists_token_at (origin : Nat) {offset : Nat} (h : offset < t.width) :
    ∃ left x right, (top origin t).leaves = left ++ x :: right ∧ x.isToken = true ∧
      x.start ≤ offset ∧ offset < x.stop := by
  have hin : offset < widthOfSites (top origin t).leaves := by
    rwa [show widthOfSites (top origin t).leaves = t.width from leaves_width.1 t origin 0 []]
  obtain ⟨left, x, right, hls, hstart, hstop⟩ := (tiled_leaves origin t).exists_at hin
  have hleaf : x ∈ (top origin t).leaves := by
    rw [hls]
    exact List.mem_append_right _ List.mem_cons_self
  refine ⟨left, x, right, hls, ?_, hstart, hstop⟩
  refine isToken_of_width_pos (List.mem_filter.1 hleaf).2 ?_
  have := stop_eq x
  omega

/-! ## The walk -/

/-- The leaf at the start of a span, and the walk from there. -/
theorem tokensIn_eq (h : bounds.start < min bounds.stop t.width) :
    ∃ left x right, (top origin t).leaves = left ++ x :: right ∧ x.isToken = true ∧
      x.start ≤ bounds.start ∧ bounds.start < x.stop ∧
      (top origin t).tokensIn bounds = x :: (right.takeWhile isToken).takeWhile
        (fun r => r.start < min bounds.stop t.width) := by
  obtain ⟨left, x, right, hls, hx, hstart, hstop⟩ := exists_token_at origin
    (show bounds.start < t.width by omega)
  have hspan : (top origin t).span = ⟨0, t.width⟩ := by
    simp [span, top, Span.ofLength]
  have hinter : (top origin t).span.inter? bounds =
      some ⟨bounds.start, min t.width bounds.stop⟩ := by
    rw [hspan, Span.inter?, Nat.zero_max, if_neg (by simp only; omega)]
  have hne : (Span.mk bounds.start (min t.width bounds.stop)).isEmpty = false := by
    simp only [Span.isEmpty, beq_eq_false_iff_ne]
    omega
  have hsplit : (top origin t).subtokens = left.filter isToken ++ x :: right.filter isToken := by
    rw [← filter_leaves, hls, List.filter_append, List.filter_cons_of_pos hx]
  have hfirst : ((top origin t).touching bounds.start).getLast? = some x :=
    getLast?_touching ((tiled_leaves origin t).pairwise.sublist (subtokens_sublist _)) hsplit hstart hstop
  refine ⟨left, x, right, hls, hx, hstart, hstop, ?_⟩
  rw [tokensIn, hinter]
  simp only [hne, hfirst, hspan, tokensAfter, (walk_eq hls).2.2]
  have hlt : x.start < min bounds.stop t.width := by omega
  rw [if_neg Bool.false_ne_true, List.takeWhile_cons, if_pos (decide_eq_true hlt)]

/-- There are no tokens in a span that is empty or lies behind the text. -/
theorem tokensIn_eq_nil (h : ¬ bounds.start < min bounds.stop t.width) :
    (top origin t).tokensIn bounds = [] := by
  have hspan : (top origin t).span = ⟨0, t.width⟩ := by
    simp [span, top, Span.ofLength]
  rw [tokensIn, hspan, Span.inter?, Nat.zero_max]
  split
  · rfl
  · next hinter =>
    split at hinter
    · cases hinter
    · cases hinter
      rw [if_pos]
      simp only [Span.isEmpty, beq_iff_eq] at *
      omega

/-- What a walk finds are tokens of the tree, in their order. -/
theorem tokensIn_sublist (origin : Nat) (t : Tree) (bounds : Span) :
    ((top origin t).tokensIn bounds).Sublist (top origin t).subtokens := by
  by_cases h : bounds.start < min bounds.stop t.width
  · obtain ⟨left, x, right, hls, hx, -, -, hwalk⟩ := @tokensIn_eq origin t bounds h
    rw [hwalk, ← filter_leaves, hls, List.filter_append, List.filter_cons_of_pos hx]
    refine List.Sublist.trans (List.Sublist.cons_cons x ?_) (List.sublist_append_right _ _)
    exact (List.takeWhile_sublist _).trans (takeWhile_isPrefix_filter _ _).sublist
  · rw [tokensIn_eq_nil h]
    exact List.nil_sublist _

/-! ## What a walk misses -/

/-- Only the end of the file has no text. -/
theorem start_lt_stop_of_lt (hregular : t.Regular) {r : Site} (hr : r ∈ (top origin t).subtokens)
    (h : r.start < t.width) : r.start < r.stop := by
  obtain ⟨left, y, right, hls, hytoken, hstart, hstop⟩ := exists_token_at origin h
  have hy : y ∈ (top origin t).subtokens := by
    rw [← filter_leaves, hls]
    exact List.mem_filter.2 ⟨by simp, hytoken⟩
  by_cases hne : y = r
  · rw [← hne] at hstop ⊢
    omega
  · -- the token with text at this place does not come before the other one
    rcases related_of_ne (subtokens_before hregular origin) hy hr hne with hbefore | hbefore
    · have := hbefore.2
      omega
    · exact hbefore.1

/-- The tokens that meet a span are the one at its start and those behind that start in it. -/
theorem filter_meets (hregular : t.Regular) {left right : List Site} {x : Site}
    (hls : (top origin t).leaves = left ++ x :: right) (hx : x.isToken = true)
    (hstart : x.start ≤ bounds.start) (hstop : bounds.start < x.stop)
    (h : bounds.start < min bounds.stop t.width) :
    (top origin t).subtokens.filter (fun r => r.span.Meets bounds) =
      x :: (right.filter isToken).filter (fun r => r.start < min bounds.stop t.width) := by
  have hpairwise := (tiled_leaves origin t).pairwise
  rw [hls] at hpairwise
  obtain ⟨-, hbehind, hleft⟩ := List.pairwise_append.1 hpairwise
  have hright := (List.pairwise_cons.1 hbehind).1
  have hmeets : ∀ r : Site, r.span.Meets bounds ↔
      max r.start bounds.start < min r.stop bounds.stop := fun r => Span.meets_iff
  have hnone : (left.filter isToken).filter (fun r => r.span.Meets bounds) = [] := by
    refine List.filter_eq_nil_iff.2 fun r hr hmeet => ?_
    have hmeet := (hmeets r).1 (of_decide_eq_true hmeet)
    have := hleft r (List.mem_filter.1 hr).1 x List.mem_cons_self
    omega
  have hself : x.span.Meets bounds := (hmeets x).2 (by omega)
  rw [← filter_leaves, hls, List.filter_append, List.filter_append, hnone,
    List.filter_cons_of_pos hx, List.filter_cons, if_pos (decide_eq_true hself), List.nil_append]
  refine congrArg (x :: ·) (List.filter_congr fun r hr => ?_)
  obtain ⟨hr, htoken⟩ := List.mem_filter.1 hr
  have hmem : r ∈ (top origin t).subtokens := by
    rw [← filter_leaves, hls]
    exact List.mem_filter.2 ⟨by simp [hr], htoken⟩
  have hle := hright r hr
  have hwithin := subtree_within.1 t origin 0 [] r (List.mem_filter.1 hmem).1
  rw [decide_eq_decide, hmeets]
  constructor
  · intro hmeet
    omega
  · intro hlt
    have := start_lt_stop_of_lt hregular hmem (by omega)
    omega

/-- Where an empty node stands a token starts that a walk does not get to. -/
theorem exists_missed {left right : List Site} {x n : Site}
    (hls : (top origin t).leaves = left ++ x :: right) (hn : n ∈ right) (hnode : n.isToken = false)
    (h : n.start < t.width) :
    ∃ y ∈ right, y.isToken = true ∧ y.start ≤ n.start ∧ y ∉ right.takeWhile isToken := by
  obtain ⟨left', y, right', hls', hy, hystart, hystop⟩ := exists_token_at origin h
  have hyleaf : y ∈ left ++ x :: right := by
    rw [← hls, hls']
    exact List.mem_append_right _ List.mem_cons_self
  have hpairwise := (tiled_leaves origin t).pairwise
  rw [hls] at hpairwise
  obtain ⟨-, hbehind, hleft⟩ := List.pairwise_append.1 hpairwise
  obtain ⟨hright, hrest⟩ := List.pairwise_cons.1 hbehind
  refine ⟨y, ?_, hy, hystart, fun hfound => ?_⟩
  · rcases List.mem_append.1 hyleaf with hmem | hmem
    · have := hleft y hmem n (List.mem_cons_of_mem x hn)
      omega
    · refine (List.mem_cons.1 hmem).resolve_left fun hyx => ?_
      have := hright n hn
      rw [hyx] at hystop
      omega
  · obtain ⟨before, after, rfl⟩ := List.append_of_mem hn
    have hbefore := mem_of_mem_takeWhile_append hnode hfound
    have := (List.pairwise_append.1 hrest).2.2 y hbefore n List.mem_cons_self
    omega

/-- The walk through a span and the tokens that meet it. -/
theorem tokensIn_exact_iff (hregular : t.Regular) :
    (top origin t).tokensIn bounds <+:
        (top origin t).subtokens.filter (fun r => r.span.Meets bounds) ∧
    ((top origin t).tokensIn bounds =
        (top origin t).subtokens.filter (fun r => r.span.Meets bounds) ↔
      ∀ n ∈ (top origin t).subnodes, n.tree.children = [] →
        ¬ (bounds.start < n.start ∧ n.start < min bounds.stop t.width)) := by
  by_cases h : bounds.start < min bounds.stop t.width
  · obtain ⟨left, x, right, hls, hx, hstart, hstop, hwalk⟩ := @tokensIn_eq origin t bounds h
    have hpairwise := (tiled_leaves origin t).pairwise
    rw [hls] at hpairwise
    obtain ⟨-, hbehind, hleft⟩ := List.pairwise_append.1 hpairwise
    obtain ⟨hright, hrest⟩ := List.pairwise_cons.1 hbehind
    have hlater : right.Pairwise (fun a b => decide (b.start < min bounds.stop t.width) = true →
        decide (a.start < min bounds.stop t.width) = true) := by
      refine hrest.imp fun {a b} hab => ?_
      have := a.start_le_stop
      simp only [decide_eq_true_eq]
      omega
    -- the walk starts at the same leaf, and goes on while leaves are tokens
    rw [hwalk, filter_meets hregular hls hx hstart hstop h,
      takeWhile_eq_filter (hlater.sublist (List.takeWhile_sublist _)), List.cons_inj_right]
    refine ⟨?_, fun heq n hn hempty hin => ?_, fun hfull => ?_⟩
    · exact (List.prefix_cons_inj x).2 ((takeWhile_isPrefix_filter _ _).filter _)
    -- an empty node among the leaves ends the walk before a token that meets the range
    · obtain ⟨hleaf, hnode⟩ := empty_iff.1 ⟨hn, hempty⟩
      have hnright : n ∈ right := by
        rw [hls] at hleaf
        rcases List.mem_append.1 hleaf with hmem | hmem
        · have := hleft n hmem x List.mem_cons_self
          have := n.start_le_stop
          omega
        · refine (List.mem_cons.1 hmem).resolve_left fun hnx => ?_
          rw [hnx, hx] at hnode
          cases hnode
      obtain ⟨y, hy, htoken, hle, hmissed⟩ := exists_missed hls hnright hnode (by omega)
      have hfound : y ∈ (right.filter isToken).filter
          (fun r => r.start < min bounds.stop t.width) :=
        List.mem_filter.2 ⟨List.mem_filter.2 ⟨hy, htoken⟩, decide_eq_true (by omega)⟩
      rw [← heq] at hfound
      exact hmissed (List.mem_filter.1 hfound).1
    -- without one, all leaves up to the end of the range are tokens
    · refine filter_takeWhile_eq hlater fun r hr hlt => ?_
      have hlt := of_decide_eq_true hlt
      by_contra hnode
      have hleaf : r ∈ (top origin t).leaves := by
        rw [hls]
        exact List.mem_append_right _ (List.mem_cons_of_mem x hr)
      obtain ⟨hn, hempty⟩ := empty_iff.2 ⟨hleaf, Bool.eq_false_iff.2 hnode⟩
      have := hright r hr
      exact hfull r hn hempty ⟨by omega, hlt⟩
  · rw [tokensIn_eq_nil h]
    have hnone : (top origin t).subtokens.filter (fun r => r.span.Meets bounds) = [] := by
      refine List.filter_eq_nil_iff.2 fun r hr hmeet => ?_
      have hmeet := Span.meets_iff.1 (of_decide_eq_true hmeet)
      have hwithin := subtree_within.1 t origin 0 [] r (List.mem_filter.1 hr).1
      have : r.span.stop = r.stop := rfl
      omega
    rw [hnone]
    refine ⟨List.prefix_rfl, fun _ n _ _ hin => ?_, fun _ => rfl⟩
    omega

end Site

open Site

/-- **A walk finds a first part of the tokens that have a byte in a span**, each once and in the order
of the text, whatever the text is.  It finds all of them if and only if no empty node stands behind
the start of the span and before the end of the span and of the text. -/
theorem Document.tokensIn_eq_iff (version : Nat) (text : String) (bounds : Span) :
    let root := (Document.ofText version text).root
    (root.tokensIn bounds).Nodup ∧
    root.tokensIn bounds <+: root.subtokens.filter (fun r => r.span.Meets bounds) ∧
    (root.tokensIn bounds = root.subtokens.filter (fun r => r.span.Meets bounds) ↔
      ∀ n ∈ root.subnodes, n.tree.children = [] →
        ¬ (bounds.start < n.start ∧ n.start < min bounds.stop root.stop)) := by
  intro root
  have hstop : root.stop = (parse text).1.width := by
    rw [stop_eq]
    exact Nat.zero_add _
  rw [hstop]
  exact ⟨root.subtokens_nodup.sublist (tokensIn_sublist version (parse text).1 bounds),
    tokensIn_exact_iff (Tree.parse_regular text)⟩

/-- The list of parameters that is missing here is an empty node, and the walk ends at it: the
semicolon behind it is not found. -/
theorem not_tokensIn_eq : ¬ ∀ (version : Nat) (text : String) (bounds : Span),
    let root := (Document.ofText version text).root
    root.tokensIn bounds = root.subtokens.filter (fun r => r.span.Meets bounds) := by
  intro h
  have hlength := congrArg List.length (h 1 "void M<T>;" ⟨0, 10⟩)
  revert hlength
  decide +kernel

/-- In a text without errors a walk finds all tokens that have a byte in the span. -/
theorem Document.tokensIn_eq_of_clean {version : Nat} {text : String}
    (hclean : (Document.ofText version text).errors = []) (bounds : Span) :
    (Document.ofText version text).root.tokensIn bounds =
      (Document.ofText version text).root.subtokens.filter (fun r => r.span.Meets bounds) := by
  refine (tokensIn_exact_iff (Tree.parse_regular text)).2.2 fun n hn hempty _ => ?_
  have hroot := Document.clean_root hclean
  obtain ⟨hleaf, hnode⟩ := empty_iff.1 ⟨hn, hempty⟩
  have htoken := hroot.leaves ▸ hleaf
  rw [(List.mem_filter.1 htoken).2] at hnode
  cases hnode

end CodeMend
