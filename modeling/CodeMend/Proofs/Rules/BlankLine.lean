import CodeMend.Proofs.Rules.LineRules

/-!
# Blank lines inside braces

The rule about blank lines inside braces demands that there be none behind an opening brace and none
before a closing one.  What has an opening brace has a closing one behind it (`exists_braces`), and
the gaps next to them lie in no child, so it is a sound rule about lines (`BlankLine.sound`).
-/

namespace CodeMend

open Tree Site

/-! ## Children that are words -/

namespace Site

/-- Is it a token of a kind? -/
def isTokenOf (k : Kind) (s : Site) : Bool := s.tree.isTokenOf k

variable {k : Kind} {a : Site}

theorem isTokenOf_eq (s : Site) : (s.kind == k && s.isToken) = s.isTokenOf k := by
  rw [isTokenOf, isToken, kind]
  cases s.tree with
  | token l text => simp [Tree.isToken, Tree.isTokenOf, Tree.kind, eq_comm]
  | node l cs => simp [Tree.isToken, Tree.isTokenOf]

theorem token?_eq (s : Site) (k : Kind) :
    s.token? k = (s.children.filter (Site.isTokenOf k)).head? := by
  rw [token?, tokens, ← List.head?_filter, List.filter_filter]
  exact congrArg List.head? (List.filter_congr fun r _ => isTokenOf_eq r)

theorem lastTokenOf?_eq (s : Site) (k : Kind) :
    s.lastTokenOf? k = (s.children.filter (Site.isTokenOf k)).getLast? := by
  rw [lastTokenOf?, tokens, List.filter_filter]
  exact congrArg List.getLast? (List.filter_congr fun r _ => isTokenOf_eq r)

/-- A token is known by its kind and its text. -/
theorem tree_of_isTokenOf (h : a.isTokenOf k = true) : ∃ text, a.tree = .token k text := by
  unfold isTokenOf at h
  cases htree : a.tree with
  | token l text =>
      rw [htree] at h
      obtain rfl : k = l := by simpa [Tree.isTokenOf] using h
      exact ⟨text, rfl⟩
  | node l cs =>
      rw [htree] at h
      cases h

theorem isSignificant_of_isTokenOf (hk : k.isTrivia = false) (h : a.isTokenOf k = true) :
    a.isSignificant = true := by
  obtain ⟨text, htree⟩ := tree_of_isTokenOf h
  simp [isSignificant, isTrivia, htree, Tree.isTrivia, hk]

theorem weight_of_isTokenOf (hk : k.isTrivia = false) (h : a.isTokenOf k = true) :
    a.weight = 1 := by
  obtain ⟨text, htree⟩ := tree_of_isTokenOf h
  rw [weight, htree, weight_token text hk]

theorem mem_words_of_isTokenOf {root : Site} (hk : k.isTrivia = false) (ha : a ∈ root.subtree)
    (h : a.isTokenOf k = true) : a ∈ root.words :=
  have htoken : a.isToken = true := (Bool.and_eq_true_iff.1 ((isTokenOf_eq a).trans h)).2
  mem_words.2 ⟨List.mem_filter.2 ⟨ha, htoken⟩, isSignificant_of_isTokenOf hk h⟩

/-- Children of a kind of tokens have counterparts. -/
theorem map_shade_isTokenOf {s s' : Site} (h : s.shade = s'.shade) (hk : k.isTrivia = false) :
    (s.children.filter (Site.isTokenOf k)).map shade =
      (s'.children.filter (Site.isTokenOf k)).map shade :=
  map_shade_filter h (g := Tree.isTokenOf k) (fun _ => isSignificant_of_isTokenOf hk) fun r => by
    rw [isTokenOf]
    cases r.tree <;> rfl

end Site

/-! ## Blank lines inside braces -/

namespace Rules.BlankLine

/-- No blank line behind the opening brace and none before the closing one; between empty braces
there is one gap. -/
def own (_ : Options) (s : Site) : List Demand :=
  match s.openBrace?, s.closeBrace? with
  | some opening, some closing =>
    (opening, false) ::
      if closing.rank = opening.rank + 1 then []
      else (closing.prevSignificant?.map (·, false)).toList
  | _, _ => []

/-- Nowhere is a blank line asked for. -/
theorem snd_of_mem_own {options : Options} {s : Site} {d : Demand} (h : d ∈ own options s) :
    d.2 = false := by
  unfold own at h
  split at h
  · rcases List.mem_cons.1 h with rfl | h
    · rfl
    · split at h
      · cases h
      · obtain ⟨previous, -, rfl⟩ := Option.map_eq_some_iff.1 (Option.mem_toList.1 h)
        rfl
  · cases h

/-- The rule about blank lines inside braces. -/
def lineRule : LineRule := ⟨descriptor, braced, findings, fix, own⟩

/-- The braces of a body. -/
structure Braces (root s opening closing : Site) : Prop where
  opens : s.openBrace? = some opening
  closes : s.closeBrace? = some closing
  opening_child : opening ∈ s.children
  closing_child : closing ∈ s.children
  opening_word : opening ∈ root.words
  closing_word : closing ∈ root.words
  opening_weight : opening.weight = 1
  closing_weight : closing.weight = 1
  apart : opening.rank < closing.rank

variable {c : Context} {s : Site}

/-- What the rule looks at has its braces closed, or has none. -/
theorem shaped_closed (hc : c.Sound) (hs : s ∈ c.root.subtree) (hsees : lineRule.sees s = true) :
    Parse.Closed s.tree.children := by
  have hshaped : s.tree.EveryNode Parse.Shaped := everyNode_of_mem.1 _ _ _ _ hc.shaped s hs
  obtain ⟨hnode, hkind⟩ := Bool.and_eq_true_iff.1 hsees
  obtain ⟨tree, start, above, origin⟩ := s
  cases tree with
  | token k text => cases hnode
  | node k cs =>
      have hk : k ∈ braced := List.contains_iff_mem.1 hkind
      have hshape : Parse.Shaped k cs := hshaped.1
      simp only [braced, List.mem_cons, List.not_mem_nil, or_false] at hk
      rcases hk with rfl | rfl | rfl | rfl | rfl | rfl | rfl <;>
        first | exact hshape | exact hshape.1.1

/-- What has an opening brace has a closing one behind it. -/
theorem exists_braces (hc : c.Sound) (hs : s ∈ c.root.subtree) (hsees : lineRule.sees s = true)
    {opening : Site} (hopen : s.openBrace? = some opening) :
    ∃ closing, Braces c.root s opening closing := by
  have hclosed := shaped_closed hc hs hsees
  have hhead := hopen
  rw [openBrace?, token?_eq, List.head?_filter] at hhead
  obtain ⟨hbrace, before, after, hsplit, -⟩ := List.find?_eq_some_iff_append.1 hhead
  obtain ⟨t, ht, hkind⟩ := hclosed (before.map tree) opening.tree (after.map tree)
    (by rw [← map_tree_children, hsplit]; simp) hbrace
  obtain ⟨other, hother, rfl⟩ := List.mem_map.1 ht
  -- the last closing brace is the last one behind the opening brace
  have hne : after.filter (Site.isTokenOf .rBrace) ≠ [] :=
    List.ne_nil_of_mem (List.mem_filter.2 ⟨hother, hkind⟩)
  obtain ⟨closing, hlast⟩ := Option.ne_none_iff_exists'.1 (mt List.getLast?_eq_none_iff.1 hne)
  have hclose : s.closeBrace? = some closing := by
    have hopening : opening.isTokenOf .rBrace = false := by
      obtain ⟨text, htree⟩ := tree_of_isTokenOf hbrace
      simp [Site.isTokenOf, htree, Tree.isTokenOf]
    rw [closeBrace?, lastTokenOf?_eq, hsplit, List.filter_append, List.filter_cons, hopening,
      List.getLast?_append, if_neg Bool.false_ne_true, hlast]
    rfl
  obtain ⟨hmem, hclosing⟩ := List.mem_filter.1 (List.mem_of_getLast? hlast)
  have hochild : opening ∈ s.children := by rw [hsplit]; simp
  have hcchild : closing ∈ s.children := by rw [hsplit]; simp [hmem]
  have hpairs := children_ranked s
  rw [hsplit] at hpairs
  have hle := (List.pairwise_cons.1 (List.pairwise_append.1 hpairs).2.1).1 closing hmem
  have hweight := weight_of_isTokenOf rfl hbrace
  exact ⟨closing, hopen, hclose, hochild, hcchild,
    mem_words_of_isTokenOf rfl (mem_subtree_child hs hochild) hbrace,
    mem_words_of_isTokenOf rfl (mem_subtree_child hs hcchild) hclosing, hweight,
    weight_of_isTokenOf rfl hclosing, by omega⟩

/-- What is demanded at a node, if anything. -/
theorem mem_own (hc : c.Sound) (hs : s ∈ c.root.subtree) (hsees : lineRule.sees s = true)
    {d : Demand} (hd : d ∈ own c.options s) :
    ∃ opening closing, Braces c.root s opening closing ∧ d.2 = false ∧ d.1 ∈ c.root.words ∧
      (d.1.rank = opening.rank ∨
        d.1.rank + 1 = closing.rank ∧ closing.rank ≠ opening.rank + 1) := by
  unfold own at hd
  cases hopen : s.openBrace? with
  | none => simp [hopen] at hd
  | some opening =>
      obtain ⟨closing, hbraces⟩ := exists_braces hc hs hsees hopen
      rw [hopen, hbraces.closes] at hd
      refine ⟨opening, closing, hbraces, ?_⟩
      rcases List.mem_cons.1 hd with rfl | hd
      · exact ⟨rfl, hbraces.opening_word, Or.inl rfl⟩
      · split at hd
        · cases hd
        · next hne =>
          obtain ⟨last, hlast, rfl⟩ := Option.map_eq_some_iff.1 (Option.mem_toList.1 hd)
          obtain ⟨hword, hrank⟩ := (hc.clean.prevSignificant?_iff hbraces.closing_word).1 hlast
          exact ⟨rfl, hword, Or.inr ⟨hrank, hne⟩⟩

/-- A gap next to a brace lies in no child. -/
theorem own_proper (hc : c.Sound) (hs : s ∈ c.root.subtree) (hsees : lineRule.sees s = true) :
    Proper (own c.options) s where
  distinct := by
    unfold own
    cases hopen : s.openBrace? with
    | none => exact List.Pairwise.nil
    | some opening =>
        obtain ⟨closing, hbraces⟩ := exists_braces hc hs hsees hopen
        rw [hbraces.closes]
        refine List.pairwise_cons.2 ⟨fun d hd => ?_, ?_⟩
        · split at hd
          · cases hd
          · next hne =>
            obtain ⟨last, hlast, rfl⟩ := Option.map_eq_some_iff.1 (Option.mem_toList.1 hd)
            -- two demands are at the two braces, and the words before these differ
            have hrank := ((hc.clean.prevSignificant?_iff hbraces.closing_word).1 hlast).2
            show opening.rank ≠ last.rank
            omega
        · split
          · exact List.Pairwise.nil
          · cases closing.prevSignificant? with
            | none => exact List.Pairwise.nil
            | some last => exact List.pairwise_singleton _ _
  inside := by
    intro d hd
    obtain ⟨opening, closing, hbraces, -, -, hrank⟩ := mem_own hc hs hsees hd
    have hopening := rank_of_mem_children hbraces.opening_child
    have hclosing := rank_of_mem_children hbraces.closing_child
    have hapart := hbraces.apart
    rw [hbraces.closing_weight] at hclosing
    unfold Inside
    omega
  between := by
    intro d hd child hchild hinside
    obtain ⟨opening, closing, hbraces, -, -, hrank⟩ := mem_own hc hs hsees hd
    have hopening := children_apart hbraces.opening_child hchild
    have hclosing := children_apart hbraces.closing_child hchild
    rw [hbraces.opening_weight] at hopening
    rw [hbraces.closing_weight] at hclosing
    unfold Inside at hinside
    rcases hrank with hrank | ⟨hrank, -⟩
    · rcases hopening with rfl | hopening
      · rw [hbraces.opening_weight] at hinside
        omega
      · omega
    · rcases hclosing with rfl | hclosing
      · rw [hbraces.closing_weight] at hinside
        omega
      · omega

theorem settle?_false (g : Gap) : g.settle? false = g.blankLines?.map .delete := by
  unfold Gap.settle? Gap.blankLines?
  cases g.kind <;> rfl

/-- Between words that follow each other the blank lines of the gap can be removed. -/
theorem removable?_eq (hc : c.Sound) {a b : Site} (ha : a ∈ c.root.words) (hb : b ∈ c.root.words)
    (hrank : b.rank = a.rank + 1) : removable? a b = a.gapAfter.blankLines? := by
  rw [removable?, hc.clean.betweenTokens?_eq ha hb, if_pos hrank, Option.filter_some]
  split
  · rfl
  · next hfixable =>
    have hkind : a.gapAfter.kind = .commentBearing := by simpa [Gap.isFixable] using hfixable
    simp [Gap.blankLines?, hkind]

/-- What is found are the blank lines that are not wanted. -/
theorem blankLines_eq (hc : c.Sound) (hs : s ∈ c.root.subtree) (hsees : lineRule.sees s = true) :
    blankLines s = (own c.options s).flatMap fun d => d.1.gapAfter.blankLines?.toList := by
  unfold blankLines own
  cases hopen : s.openBrace? with
  | none => rfl
  | some opening =>
      obtain ⟨closing, hbraces⟩ := exists_braces hc hs hsees hopen
      have hapart := hbraces.apart
      have hbound := (rank_of_mem_words hbraces.closing_word).2
      have hstart := (rank_of_mem_words hbraces.opening_word).1
      obtain ⟨first, hfirst, hrank⟩ := exists_word (s := c.root) (n := opening.rank + 1)
        (by omega) (by omega)
      rw [hbraces.closes]
      dsimp only
      rw [(hc.clean.nextSignificant?_iff hbraces.opening_word).2 ⟨hfirst, hrank⟩]
      dsimp only
      by_cases hempty : closing.rank = opening.rank + 1
      · obtain rfl : first = closing := eq_of_rank_eq hfirst hbraces.closing_word (by omega)
        rw [same_self, if_pos rfl, if_pos hempty,
          removable?_eq hc hbraces.opening_word hbraces.closing_word hempty]
        simp
      · have hother : first.same closing = false := by
          refine Bool.eq_false_iff.2 fun hsame => hempty ?_
          rw [← (same_iff (mem_subtree_of_mem_words hfirst)
            (mem_subtree_of_mem_words hbraces.closing_word)).1 hsame, hrank]
        obtain ⟨last, hlast, hrank'⟩ := exists_word (s := c.root) (n := closing.rank - 1)
          (by omega) (by omega)
        have hprev := (hc.clean.prevSignificant?_iff hbraces.closing_word).2
          ⟨hlast, (by omega : last.rank + 1 = closing.rank)⟩
        rw [hother, if_neg (by nofun), if_neg hempty, hprev,
          removable?_eq hc hbraces.opening_word hfirst hrank]
        simp [removable?_eq hc hlast hbraces.closing_word (by omega)]

/-- The fix of what is found deletes it. -/
theorem mends_delete (hc : c.Sound) {a b : Site} (ha : a ∈ c.root.words) (hb : b ∈ c.root.words)
    (hrank : b.rank = a.rank + 1) {span : Span} (hspan : a.gapAfter.blankLines? = some span) :
    lineRule.Mends c { descriptor := descriptor, span := span } (.delete span) := by
  refine ⟨rfl, fun severity => ⟨"Remove blank line", ?_⟩⟩
  have hcurrent : isCurrent c span = true := by
    rw [isCurrent, hc.clean.findToken?_blankLines ha hspan]
    have hnext := (hc.clean.nextSignificant?_iff ha).2 ⟨hb, hrank⟩
    simp [hnext, removable?_eq hc ha hb hrank, hspan]
  have hdelete := Document.deleteSpan_blankLines (d := c.document) hc.clean ha hspan
  show (if isCurrent c span then _ else _) = _
  rw [if_pos hcurrent]
  show (c.editor.deleteSpan span >>= _) = _
  rw [Context.editor, hdelete]
  rfl

/-- Each finding at a node is mended by the splice that settles its gap. -/
theorem own_mends (hc : c.Sound) (hs : s ∈ c.root.subtree) (hsees : lineRule.sees s = true) :
    List.Forall₂ (lineRule.Mends c) (findings c s) (settleAll (own c.options s)) := by
  have hsettle : settleAll (own c.options s) = (blankLines s).map .delete := by
    rw [blankLines_eq hc hs hsees, List.map_flatMap]
    refine List.flatMap_congr fun d hd => ?_
    obtain ⟨_, _, _, hwant, -⟩ := mem_own hc hs hsees hd
    rw [hwant, settle?_false]
    cases d.1.gapAfter.blankLines? <;> rfl
  rw [hsettle, findings, List.forall₂_map_left_iff, List.forall₂_map_right_iff, List.forall₂_same]
  intro span hspan
  rw [blankLines_eq hc hs hsees] at hspan
  obtain ⟨d, hd, hspan⟩ := List.mem_flatMap.1 hspan
  obtain ⟨_, _, _, -, hword, -⟩ := mem_own hc hs hsees hd
  obtain ⟨hle, hlt⟩ := (own_proper hc hs hsees).inside d hd
  obtain ⟨b, hb, hrank⟩ := exists_word (s := s) (n := d.1.rank + 1) (by omega) hlt
  exact mends_delete hc hword (words_subset hs hb) hrank (Option.mem_toList.1 hspan)

/-- The braces of a node have counterparts. -/
theorem own_stable {c' : Context} {s' : Site} (hc : c.Sound) (hc' : c'.Sound)
    (hs : s ∈ c.root.subtree) (hs' : s' ∈ c'.root.subtree) (hsees : lineRule.sees s = true)
    (hshade : s.shade = s'.shade) {d' : Demand} (hd' : d' ∈ own c'.options s') :
    ∃ d ∈ own c.options s, d.1.rank = d'.1.rank ∧ d.2 = d'.2 := by
  have hsees' : lineRule.sees s' = true := LineRule.Sound.sees_of_shade_eq hshade ▸ hsees
  obtain ⟨opening', closing', hbraces', hwant, -, hrank⟩ := mem_own hc' hs' hsees' hd'
  have hopen : s.openBrace?.map shade = some opening'.shade := by
    have hopen' := hbraces'.opens
    rw [openBrace?, token?_eq] at hopen' ⊢
    rw [← List.head?_map, map_shade_isTokenOf hshade rfl, List.head?_map, hopen']
    rfl
  have hclose : s.closeBrace?.map shade = some closing'.shade := by
    have hclose' := hbraces'.closes
    rw [closeBrace?, lastTokenOf?_eq] at hclose' ⊢
    rw [← List.getLast?_map, map_shade_isTokenOf hshade rfl, List.getLast?_map, hclose']
    rfl
  obtain ⟨opening, hopen, hoshade⟩ := Option.map_eq_some_iff.1 hopen
  obtain ⟨closing, hclose, hcshade⟩ := Option.map_eq_some_iff.1 hclose
  have horank : opening.rank = opening'.rank := congrArg Prod.fst hoshade
  have hcrank : closing.rank = closing'.rank := congrArg Prod.fst hcshade
  obtain ⟨closing₂, hbraces⟩ := exists_braces hc hs hsees hopen
  obtain rfl : closing = closing₂ := Option.some.inj (hclose.symm.trans hbraces.closes)
  have hapart := hbraces.apart
  unfold own
  rw [hopen, hclose]
  rcases hrank with hrank | ⟨hrank, hne⟩
  · exact ⟨(opening, false), List.mem_cons_self, horank.trans hrank.symm, hwant.symm⟩
  · have hbound := rank_of_mem_words hbraces.closing_word
    have hstart := rank_of_mem_words hbraces.opening_word
    obtain ⟨last, hlast, hrank'⟩ := exists_word (s := c.root) (n := closing.rank - 1)
      (by omega) (by omega)
    have hprev := (hc.clean.prevSignificant?_iff hbraces.closing_word).2
      ⟨hlast, (by omega : last.rank + 1 = closing.rank)⟩
    have hne' : closing.rank ≠ opening.rank + 1 := by omega
    refine ⟨(last, false), List.mem_cons_of_mem _ ?_, (by omega : last.rank = d'.1.rank),
      hwant.symm⟩
    rw [if_neg hne', hprev]
    exact List.mem_singleton_self _

/-- **The rule about blank lines inside braces is sound.** -/
theorem sound : lineRule.Sound where
  kinds_nodup := by decide
  proper _ hc _ hs hsees := own_proper hc hs hsees
  words _ hc _ hs hsees d hd := by
    obtain ⟨_, _, _, -, hword, -⟩ := mem_own hc hs hsees hd
    exact hword
  mends _ hc _ hs hsees := own_mends hc hs hsees
  stable _ _ hc hc' _ _ hs _ hs' hsees hshade _ hd' := own_stable hc hc' hs hs' hsees hshade hd'

end Rules.BlankLine

end CodeMend
