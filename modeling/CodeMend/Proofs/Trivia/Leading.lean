import CodeMend.Proofs.Lexer.LineStarts
import CodeMend.Proofs.Trivia.Walks

/-!
# Directives only lead

A directive stands at the start of a line, and what trails a token ends with the line of the token.
So no directive trails a token (`not_directive_of_trails`).  What a node owns outside of itself leads
its first significant token or trails its last one (`leads_or_trails`), and so the directives there
stand before the node, each at the start of a line.

This holds of the tree of every text.  In a broken one the walks from token to token end at the nodes
that an error left empty, so the trivia of a token are the first few leaves next to it.
-/

namespace CodeMend

namespace Site

open Tree

variable {origin : Nat} {t : Tree} {s n d : Site}

/-! ## Trivia next to a token -/

theorem trailingPart_isPrefix (run : List Site) : trailingPart run <+: run :=
  ⟨_, trailingPart_append_leadingPart run⟩

theorem leadingPart_isSuffix (run : List Site) : leadingPart run <:+ run :=
  ⟨_, trailingPart_append_leadingPart run⟩

/-- Before the end of what trails a token, no line ends. -/
theorem not_newline_of_trailingPart {run front back : List Site} (h : trailingPart run = front ++ d :: back) :
    ∀ u ∈ front, u.kind ≠ .newline := by
  induction run generalizing front with
  | nil => simp [trailingPart] at h
  | cons u run ih =>
      cases front with
      | nil => nofun
      | cons w front =>
          rw [trailingPart] at h
          split at h
          · simp at h
          · next hbreak =>
            obtain ⟨rfl, hrest⟩ := List.cons.inj h
            exact List.forall_mem_cons.2 ⟨by simpa using hbreak, ih hrest⟩

/-- What trails a token are the leaves right behind it, and what leads it those right before it. -/
theorem trivia_beside {left right : List Site} (h : (top origin t).leaves = left ++ s :: right) :
    s.trailingTrivia <+: right ∧ s.leadingTrivia <:+ left := by
  obtain ⟨-, hbefore, hafter⟩ := walk_eq h
  constructor
  · rw [trailingTrivia, triviaAfter, tokensAfter, hafter]
    split
    · exact List.nil_prefix
    · exact (trailingPart_isPrefix _).trans ((List.takeWhile_prefix _).trans (List.takeWhile_prefix _))
  · have hrun : s.triviaBefore <:+ left := by
      rw [triviaBefore, tokensBefore, hbefore, ← List.reverse_reverse left, List.reverse_suffix,
        List.reverse_reverse]
      exact (List.takeWhile_prefix _).trans (List.takeWhile_prefix _)
    rw [leadingTrivia]
    split
    · exact List.nil_suffix
    · split
      · exact hrun
      · exact (leadingPart_isSuffix _).trans hrun

/-- Trivia trails only what is not trivia. -/
theorem trails_significant (h : d ∈ s.trailingTrivia) :
    s.isTrivia = false ∧ s.trailingTrivia = trailingPart s.triviaAfter := by
  rw [trailingTrivia] at h ⊢
  split at h
  · cases h
  · next hs => exact ⟨by simpa using hs, if_neg hs⟩

theorem isToken_of_trails (h : d ∈ s.trailingTrivia) : d.isToken = true := by
  rw [(trails_significant h).2] at h
  have hrun := (trailingPart_isPrefix _).subset h
  exact List.mem_takeWhile_imp ((List.takeWhile_prefix _).subset hrun)

/-- A leaf stands before another, is that one or stands behind it. -/
theorem placed {left right : List Site} (h : (top origin t).leaves = left ++ s :: right)
    (hd : d ∈ (top origin t).leaves) :
    (d ∈ left ∧ d.stop ≤ s.start) ∨ d = s ∨ (d ∈ right ∧ s.stop ≤ d.start) := by
  have hpairwise := (tiled_leaves origin t).pairwise
  rw [h] at hpairwise hd
  obtain ⟨-, hbehind, hbefore⟩ := List.pairwise_append.1 hpairwise
  rcases List.mem_append.1 hd with hd | hd
  · exact .inl ⟨hd, hbefore d hd s List.mem_cons_self⟩
  · rcases List.mem_cons.1 hd with rfl | hd
    · exact .inr (.inl rfl)
    · exact .inr (.inr ⟨hd, (List.pairwise_cons.1 hbehind).1 d hd⟩)

/-- Text behind a token and before the end of what trails it trails it. -/
theorem trails_of_lt (hs : s ∈ (top origin t).leaves) (hd : d ∈ (top origin t).leaves)
    (hsolid : d.start < d.stop) (hle : s.stop ≤ d.start) (hlt : d.start < s.trailingSpan.stop) :
    d ∈ s.trailingTrivia := by
  obtain ⟨left, right, hsplit⟩ := List.append_of_mem hs
  obtain ⟨more, hmore⟩ := (trivia_beside hsplit).1
  have hsle := start_le_stop s
  have hright : d ∈ right := by
    rcases placed hsplit hd with ⟨-, hbefore⟩ | rfl | ⟨hright, -⟩
    · omega
    · omega
    · exact hright
  have hpairwise := (tiled_leaves origin t).pairwise
  rw [hsplit, ← hmore] at hpairwise
  have hbehind := (List.pairwise_cons.1 (List.pairwise_append.1 hpairwise).2.1).2
  refine (List.mem_append.1 (hmore ▸ hright)).resolve_right fun hd => Nat.not_le.2 hlt ?_
  rw [trailingSpan]
  cases hlast : s.trailingTrivia.getLast? with
  | none => exact hle
  | some u => exact (List.pairwise_append.1 hbehind).2.2 u (List.mem_of_getLast? hlast) d hd

/-- Text before a token and behind the start of what leads it leads it. -/
theorem leads_of_lt (hs : s ∈ (top origin t).leaves) (hd : d ∈ (top origin t).leaves)
    (hsolid : d.start < d.stop) (hle : d.stop ≤ s.start) (hlt : s.leadingSpan.start < d.stop) :
    d ∈ s.leadingTrivia := by
  obtain ⟨left, right, hsplit⟩ := List.append_of_mem hs
  obtain ⟨more, hmore⟩ := (trivia_beside hsplit).2
  have hsle := start_le_stop s
  have hleft : d ∈ left := by
    rcases placed hsplit hd with ⟨hleft, -⟩ | rfl | ⟨-, hbehind⟩
    · exact hleft
    · omega
    · omega
  have hpairwise := (tiled_leaves origin t).pairwise
  rw [hsplit, ← hmore] at hpairwise
  have hbefore := (List.pairwise_append.1 hpairwise).1
  refine (List.mem_append.1 (hmore ▸ hleft)).resolve_left fun hd => Nat.not_le.2 hlt ?_
  rw [leadingSpan]
  cases hfirst : s.leadingTrivia.head? with
  | none => exact hle
  | some u => exact (List.pairwise_append.1 hbefore).2.2 d hd u (List.mem_of_head? hfirst)

/-! ## Trivia next to a node -/

/-- The leaves of the tree are those before a node, those of the node and those behind it. -/
theorem exists_beside (hn : n ∈ (top origin t).subtree) :
    ∃ left right, (top origin t).leaves = left ++ (n.leaves ++ right) ∧
      (∀ u ∈ left, u.stop ≤ n.start) ∧ ∀ u ∈ right, n.stop ≤ u.start := by
  obtain ⟨left, right, hsplit⟩ := leaves_of_mem.1 t origin 0 [] n hn
  have hsplit : (top origin t).leaves = left ++ (n.leaves ++ right) := hsplit
  have htiled := tiled_leaves origin t
  have hwidth : widthOfSites n.leaves = n.tree.width :=
    leaves_width.1 n.tree n.origin n.start n.above
  have hstart : n.start = widthOfSites left := by
    cases hleaves : n.leaves with
    | nil => exact absurd hleaves (leavesOf_ne_nil.1 n.tree n.origin n.start n.above)
    | cons u others =>
        have hu := (leaves_walk.1 n.tree n.origin n.start n.above [] u others hleaves).start
        rw [hleaves] at hsplit
        rw [← htiled left u (others ++ right) hsplit]
        simpa [widthOfSites_nil] using hu.symm
  refine ⟨left, right, hsplit, fun u hu => ?_, fun u hu => ?_⟩
  · obtain ⟨before, after, rfl⟩ := List.append_of_mem hu
    have hat : (top origin t).leaves = before ++ u :: (after ++ (n.leaves ++ right)) := by
      rw [hsplit]
      simp
    rw [hstart, htiled.stop_eq hat, widthOfSites_append, widthOfSites_append, widthOfSites_cons,
      widthOfSites_cons]
    simp only [widthOfSites_nil]
    omega
  · obtain ⟨before, after, rfl⟩ := List.append_of_mem hu
    have hu := htiled (left ++ n.leaves ++ before) u after (by rw [hsplit]; simp)
    rw [hu, stop_eq, hstart, ← hwidth, widthOfSites_append, widthOfSites_append]
    omega

theorem mem_leaves_of_mem (hn : n ∈ (top origin t).subtree) (hs : s ∈ n.leaves) :
    s ∈ (top origin t).leaves := by
  obtain ⟨left, right, hsplit, -⟩ := exists_beside hn
  rw [hsplit]
  simp [hs]

theorem mem_leaves_of_mem_subtokens (hs : s ∈ n.subtokens) : s ∈ n.leaves :=
  (subtokens_sublist n).subset hs

/-- The first significant token of a node does not stand before the node. -/
theorem firstSignificant?_within (hn : n ∈ (top origin t).subtree) (hnode : n.isToken = false)
    (h : n.firstSignificant? = some s) : s ∈ (top origin t).subtokens ∧ n.start ≤ s.start := by
  rw [firstSignificant?, if_neg (by simp [hnode])] at h
  obtain ⟨first, hfirst, h⟩ := Option.bind_eq_some_iff.1 h
  obtain ⟨hhead, htoken⟩ := Option.filter_eq_some_iff.1 hfirst
  have hmem : first ∈ n.leaves := List.mem_of_head? hhead
  have hleaf := mem_leaves_of_mem hn hmem
  rw [← filter_leaves]
  split at h
  · obtain ⟨hnext, hcovers⟩ := Option.filter_eq_some_iff.1 h
    obtain ⟨left, right, hsplit⟩ := List.append_of_mem hleaf
    have hfollow := List.mem_of_find?_eq_some hnext
    rw [tokensAfter, (walk_eq hsplit).2.2] at hfollow
    refine ⟨List.mem_filter.2 ⟨?_, List.mem_takeWhile_imp hfollow⟩, (covers_span_iff.1 hcovers).1⟩
    rw [hsplit]
    simp [(List.takeWhile_prefix _).subset hfollow]
  · obtain rfl := Option.some.inj h
    exact ⟨List.mem_filter.2 ⟨hleaf, htoken⟩,
      (subtree_within.1 _ _ _ _ _ (List.mem_filter.1 hmem).1).1⟩

/-- The last significant token of a node does not reach behind the node. -/
theorem lastSignificant?_within (hn : n ∈ (top origin t).subtree) (hnode : n.isToken = false)
    (h : n.lastSignificant? = some s) : s ∈ (top origin t).subtokens ∧ s.stop ≤ n.stop := by
  rw [lastSignificant?, if_neg (by simp [hnode])] at h
  obtain ⟨last, hlast, h⟩ := Option.bind_eq_some_iff.1 h
  obtain ⟨hend, htoken⟩ := Option.filter_eq_some_iff.1 hlast
  have hmem : last ∈ n.leaves := List.mem_of_getLast? hend
  have hleaf := mem_leaves_of_mem hn hmem
  rw [← filter_leaves]
  split at h
  · obtain ⟨hprev, hcovers⟩ := Option.filter_eq_some_iff.1 h
    obtain ⟨left, right, hsplit⟩ := List.append_of_mem hleaf
    have hprecede := List.mem_of_find?_eq_some hprev
    rw [tokensBefore, (walk_eq hsplit).2.1] at hprecede
    refine ⟨List.mem_filter.2 ⟨?_, List.mem_takeWhile_imp hprecede⟩, (covers_span_iff.1 hcovers).2⟩
    rw [hsplit]
    simp [List.mem_reverse.1 ((List.takeWhile_prefix _).subset hprecede)]
  · obtain rfl := Option.some.inj h
    exact ⟨List.mem_filter.2 ⟨hleaf, htoken⟩,
      (subtree_within.1 _ _ _ _ _ (List.mem_filter.1 hmem).1).2⟩

/-- **What a node owns outside of itself** leads its first significant token and stands before the
node, or trails its last one. -/
theorem leads_or_trails (hn : n ∈ (top origin t).subnodes) (hd : d ∈ (top origin t).leaves)
    (hsolid : d.start < d.stop) (hmeets : n.fullSpan.Meets d.span)
    (hout : n.span.covers d.span = false) :
    (d.stop ≤ n.start ∧ ∃ first, n.firstSignificant? = some first ∧ d ∈ first.leadingTrivia) ∨
      ∃ last ∈ (top origin t).subtokens, d ∈ last.trailingTrivia := by
  obtain ⟨hmem, hnode⟩ := List.mem_filter.1 hn
  have hnode : n.isToken = false := by simpa [isNode, Tree.isNode, isToken] using hnode
  obtain ⟨left, right, hsplit, hleft, hright⟩ := exists_beside hmem
  have hmeets : max n.fullSpan.start d.start < min n.fullSpan.stop d.stop := Span.meets_iff.1 hmeets
  -- the tokens of the node are in its span, so this one stands before or behind the node
  have hbeside : d.stop ≤ n.start ∨ n.stop ≤ d.start := by
    rw [hsplit] at hd
    rcases List.mem_append.1 hd with hd | hd
    · exact .inl (hleft d hd)
    rcases List.mem_append.1 hd with hd | hd
    · have hwithin := subtree_within.1 _ _ _ _ _ (List.mem_filter.1 hd).1
      rw [covers_span_iff.2 hwithin] at hout
      cases hout
    · exact .inr (hright d hd)
  unfold fullSpan at hmeets
  split at hmeets
  · next first last hfirst hlast =>
    obtain ⟨hfirsttoken, hfirststart⟩ := firstSignificant?_within hmem hnode hfirst
    obtain ⟨hlasttoken, hlaststop⟩ := lastSignificant?_within hmem hnode hlast
    have hmeets : max (min first.leadingSpan.start n.start) d.start <
        min (max last.trailingSpan.stop n.stop) d.stop := hmeets
    rcases hbeside with hbefore | hbehind
    · exact .inl ⟨hbefore, first, hfirst,
        leads_of_lt (mem_leaves_of_mem_subtokens hfirsttoken) hd hsolid (by omega) (by omega)⟩
    · exact .inr ⟨last, hlasttoken,
        trails_of_lt (mem_leaves_of_mem_subtokens hlasttoken) hd hsolid (by omega) (by omega)⟩
  · have hmeets : max n.start d.start < min n.stop d.stop := hmeets
    omega

end Site

open Site

variable {version : Nat} {text : String} {d : Site}

/-- **A token of a tree is a directive exactly if it starts with a hash and a line starts before
it.** -/
theorem Document.isDirective_iff {before after : List Site}
    (h : (Document.ofText version text).root.subtokens = before ++ d :: after) :
    d.kind.isDirective = true ↔
      d.text.toList.head? = some '#' ∧ AtLineStart (before.map Site.kind) := by
  have hstored : (lex text).1.map Token.stored =
      before.map stored ++ d.stored :: after.map stored := by
    rw [← parse_tokens, ← List.map_cons, ← List.map_append, ← h]
    exact (map_stored_subtokens (Document.ofText version text).root).symm
  have hiff := CodeMend.isDirective_iff hstored
  rwa [List.map_map] at hiff

/-- No directive trails a token: it would start a line behind the token and before the end of the
token's line. -/
theorem Document.not_directive_of_trails {s : Site}
    (hs : s ∈ (Document.ofText version text).root.subtokens) (hd : d ∈ s.trailingTrivia) :
    d.kind.isDirective = false := by
  obtain ⟨left, right, hsplit⟩ := List.append_of_mem (mem_leaves_of_mem_subtokens hs)
  obtain ⟨more, hmore⟩ := (trivia_beside (t := (parse text).1) hsplit).1
  obtain ⟨front, back, htrailing⟩ := List.append_of_mem hd
  have htokens : (front ++ d :: back).filter isToken = front ++ d :: back :=
    List.filter_eq_self.2 fun u hu => isToken_of_trails (htrailing ▸ hu)
  have hsubtokens : (Document.ofText version text).root.subtokens =
      (left.filter isToken ++ s :: front) ++ d :: (back ++ more.filter isToken) := by
    rw [← filter_leaves, hsplit, ← hmore, htrailing, List.filter_append,
      List.filter_cons_of_pos (List.mem_filter.1 hs).2, List.filter_append, htokens]
    simp
  obtain ⟨htrivia, htrails⟩ := trails_significant hd
  have hk : s.kind.isTrivia = false := by
    obtain ⟨k, spelling, htree, hk⟩ := isTrivia_of_isToken (List.mem_filter.1 hs).2
    rw [Site.kind, htree]
    exact hk.symm.trans htrivia
  have hline : ∀ k ∈ front.map Site.kind, k ≠ .newline :=
    List.forall_mem_map.2 (not_newline_of_trailingPart (htrails.symm.trans htrailing))
  refine Bool.eq_false_iff.2 fun hdirective => ?_
  have hstart := ((Document.isDirective_iff hsubtokens).1 hdirective).2
  rw [List.map_append, List.map_cons] at hstart
  exact not_atLineStart hk hline hstart

/-- **Directives are only ever leading trivia.**  A token is a directive exactly if it starts with a
hash and nothing but white space lies between it and the line break before it, or the start of the
text.  In the tree no directive trails a token.  So a directive that a node owns outside of itself
leads its first significant token: it stands before the node, and at the start of a line. -/
theorem directives_lead (version : Nat) (text : String) :
    let root := (Document.ofText version text).root
    (∀ before t after, (lex text).1 = before ++ t :: after →
      (t.kind.isDirective = true ↔
        t.text.toList.head? = some '#' ∧ AtLineStart (before.map Token.kind))) ∧
    (∀ s ∈ root.subtokens, ∀ d ∈ s.trailingTrivia, d.kind.isDirective = false) ∧
    ∀ n ∈ root.subnodes, ∀ before d after, root.subtokens = before ++ d :: after →
      d.kind.isDirective = true → n.fullSpan.Meets d.span → n.span.covers d.span = false →
        d.stop ≤ n.start ∧ AtLineStart (before.map Site.kind) ∧
          ∃ first, n.firstSignificant? = some first ∧ d ∈ first.leadingTrivia := by
  refine ⟨fun before t after h => ?_, fun s hs d hd => Document.not_directive_of_trails hs hd,
    fun n hn before d after h hdirective hmeets hout => ?_⟩
  · have hstored := congrArg (List.map Token.stored) h
    rw [List.map_append, List.map_cons] at hstored
    have hiff := CodeMend.isDirective_iff hstored
    rwa [List.map_map] at hiff
  · obtain ⟨hhash, hstart⟩ := (Document.isDirective_iff h).1 hdirective
    have hd : d ∈ (Document.ofText version text).root.subtokens := by rw [h]; simp
    have hsolid : d.start < d.stop := by
      refine start_lt_stop (List.mem_filter.1 hd).2 fun hempty => ?_
      rw [show d.text = "" from hempty] at hhash
      cases hhash
    rcases leads_or_trails (t := (parse text).1) hn (mem_leaves_of_mem_subtokens hd) hsolid hmeets
      hout with ⟨hbefore, hleads⟩ | ⟨last, hlast, htrails⟩
    · exact ⟨hbefore, hstart, hleads⟩
    · have hnot := Document.not_directive_of_trails hlast htrails
      rw [hdirective] at hnot
      cases hnot

end CodeMend
