import CodeMend.Proofs.Edit.Stitching
import CodeMend.Proofs.Edit.Respacing
import CodeMend.Proofs.Engine.Runs
import CodeMend.Proofs.Parser.Blocks
import CodeMend.Proofs.Rules.BlankLine
import CodeMend.Proofs.Trivia.Closing

/-!
# Braces in a switch section: what the fix leaves

The fix puts those children of a block in its place that lie between its first and its last statement.
The rule reports a block only if nothing but white space and line breaks stands between its braces and
its statements, so a child that is left out holds nothing else (`Plain.left_out`).  In the document
that the fix gives, the tokens are the old ones without the two braces, but for white space and line
breaks (`braces_removed`).
-/

namespace CodeMend

open Tree Site

namespace Rules.SwitchBraces

variable {origin : Nat} {t : Tree} {block opening closing first last : Site} {body : List Site}

/-- A block whose statements go from `first` to `last`, with nothing but white space and line breaks
between them and the braces. -/
structure Plain (root block opening closing first last : Site) (body : List Site) : Prop where
  mem : block ∈ root.subtree
  children : block.children = opening :: (body ++ [closing])
  openBrace : opening.isTokenOf .lBrace = true
  closeBrace : closing.isTokenOf .rBrace = true
  head : block.statements.head? = some first
  tail : block.statements.getLast? = some last
  front : ∃ word gap, first.firstSignificant? = some word ∧
    Gap.betweenTokens? opening word = some gap ∧ gap.isFixable = true
  back : ∃ word gap, last.lastSignificant? = some word ∧
    Gap.betweenTokens? word closing = some gap ∧ gap.isFixable = true

/-- The splice that puts the statements in the place of the block. -/
def partsSplice (block first last : Site) : Splice :=
  let inner : Span := ⟨first.start, last.stop⟩
  ⟨block.span, some block.kind,
    Replacement.formatted ⟨(block.children.filter fun t => inner.covers t.span).map tree, []⟩⟩

/-! ## The parts of the block -/

theorem mem_of_statements {s : Site} (h : s ∈ block.statements) :
    s ∈ block.children ∧ s.isNode = true := by
  obtain ⟨hnode, -⟩ := List.mem_filter.1 h
  exact List.mem_filter.1 hnode

/-- A child that is a node is seen from its first and last token. -/
theorem framed_child (hroot : Clean (top origin t)) (hmem : block ∈ (top origin t).subtree) {s : Site}
    (hchild : s ∈ block.children) (hnode : s.isNode = true) : ∃ a b, Framed s a b := by
  refine hroot.framed s (List.mem_filter.2 ⟨mem_subtree_child hmem hchild, hnode⟩) ?_
  rintro rfl
  cases parent?_of_mem_children hchild

theorem word_of_leaf (hroot : Clean (top origin t)) {s a : Site} (hs : s ∈ (top origin t).subtree)
    (ha : a ∈ s.leaves) (hsig : a.isSignificant = true) : a ∈ (top origin t).words :=
  mem_words.2 ⟨hroot.leaves ▸ leaves_subset hs ha, hsig⟩

theorem isToken_of_isTokenOf {a : Site} {k : Kind} (ha : a.isTokenOf k = true) : a.isToken = true := by
  obtain ⟨text, htree⟩ := tree_of_isTokenOf ha
  rw [Site.isToken, htree]
  rfl

/-- A token below a site is a word. -/
theorem word_of_child (hmem : block ∈ (top origin t).subtree)
    {a : Site} {k : Kind} (hchild : a ∈ block.children) (ha : a.isTokenOf k = true)
    (hk : k.isTrivia = false) : a ∈ (top origin t).words :=
  mem_words.2 ⟨List.mem_filter.2 ⟨mem_subtree_child hmem hchild, isToken_of_isTokenOf ha⟩,
    isSignificant_of_isTokenOf hk ha⟩

theorem ne_of_isNode {s a : Site} {k : Kind} (hs : s.isNode = true) (ha : a.isTokenOf k = true) :
    s ≠ a := by
  rintro rfl
  obtain ⟨text, htree⟩ := tree_of_isTokenOf ha
  rw [Site.isNode, htree] at hs
  cases hs

/-- Leaving out parts without tokens to keep. -/
theorem filter_kept_parts {cs : List Site} {p : Site → Bool}
    (htokens : ∀ c ∈ cs, c.tree.tokens = c.leaves.map stored)
    (hout : ∀ c ∈ cs, p c = false → ∀ x ∈ c.leaves, isKept x.stored = false) :
    (tokensAll ((cs.filter p).map tree)).filter isKept =
      ((cs.flatMap leaves).map stored).filter isKept := by
  induction cs with
  | nil => rfl
  | cons c cs ih =>
      obtain ⟨hc, hcs⟩ := List.forall_mem_cons.1 htokens
      obtain ⟨hcout, hcsout⟩ := List.forall_mem_cons.1 hout
      rw [List.flatMap_cons, List.map_append, List.filter_append, ← ih hcs hcsout, ← hc]
      by_cases hp : p c = true
      · rw [List.filter_cons_of_pos hp, List.map_cons, tokensAll, List.filter_append]
      · have hnone : c.tree.tokens.filter isKept = [] := by
          rw [hc]
          refine Respaced.filter_isKept_blank fun x hx => ?_
          obtain ⟨y, hy, rfl⟩ := List.mem_map.1 hx
          exact hcout (by simpa using hp) y hy
        rw [List.filter_cons_of_neg hp, hnone, List.nil_append]

namespace Plain

variable (h : Plain (top origin t) block opening closing first last body)

include h

theorem opening_mem : opening ∈ block.children := by simp [h.children]

theorem closing_mem : closing ∈ block.children := by simp [h.children]

theorem pairwise : (opening :: (body ++ [closing])).Pairwise (fun a b => a.stop ≤ b.start) :=
  h.children ▸ block.children_pairwise

/-- Between the opening brace and the first statement. -/
theorem front_blank (hroot : Clean (top origin t)) {x : Site} (hx : x ∈ (top origin t).subtokens)
    (hsolid : x.start < x.stop) (hstart : opening.stop ≤ x.start) (hstop : x.stop ≤ first.start) :
    x.kind = .whitespace ∨ x.kind = .newline := by
  obtain ⟨hchild, hnode⟩ := mem_of_statements (List.mem_of_head? h.head)
  obtain ⟨word, gap, hword, hgap, hfix⟩ := h.front
  obtain ⟨a, b, hframed⟩ := framed_child hroot h.mem hchild hnode
  obtain rfl : a = word := Option.some.inj (hframed.firstSignificant.symm.trans hword)
  obtain ⟨others, hleaves⟩ := hframed.heads
  have hspan : first.start = a.start := congrArg Span.start hframed.span_eq
  exact hroot.blank_between (word_of_child h.mem h.opening_mem h.openBrace rfl)
    (word_of_leaf hroot (mem_subtree_child h.mem hchild) (by rw [hleaves]; simp) hframed.significant.1)
    hgap hfix hx hsolid hstart (hspan ▸ hstop)

/-- Between the last statement and the closing brace. -/
theorem back_blank (hroot : Clean (top origin t)) {x : Site} (hx : x ∈ (top origin t).subtokens)
    (hsolid : x.start < x.stop) (hstart : last.stop ≤ x.start) (hstop : x.stop ≤ closing.start) :
    x.kind = .whitespace ∨ x.kind = .newline := by
  obtain ⟨hchild, hnode⟩ := mem_of_statements (List.mem_of_getLast? h.tail)
  obtain ⟨word, gap, hword, hgap, hfix⟩ := h.back
  obtain ⟨a, b, hframed⟩ := framed_child hroot h.mem hchild hnode
  obtain rfl : b = word := Option.some.inj (hframed.lastSignificant.symm.trans hword)
  obtain ⟨others, hleaves⟩ := hframed.ends
  have hspan : last.stop = b.stop := by
    show last.span.stop = b.stop
    rw [hframed.span_eq]
  exact hroot.blank_between
    (word_of_leaf hroot (mem_subtree_child h.mem hchild) (by rw [hleaves]; simp) hframed.significant.2)
    (word_of_child h.mem h.closing_mem h.closeBrace rfl) hgap hfix hx hsolid (hspan ▸ hstart) hstop

/-- **What is left out is white space and line breaks.** -/
theorem left_out (hroot : Clean (top origin t)) {c x : Site} (hc : c ∈ body)
    (hout : (⟨first.start, last.stop⟩ : Span).covers c.span = false) (hx : x ∈ c.leaves)
    (hsolid : x.start < x.stop) : x.kind = .whitespace ∨ x.kind = .newline := by
  have hchild : c ∈ block.children := by simp [h.children, hc]
  obtain ⟨hfirst, -⟩ := mem_of_statements (List.mem_of_head? h.head)
  obtain ⟨hlast, -⟩ := mem_of_statements (List.mem_of_getLast? h.tail)
  obtain ⟨hopening, hpairs⟩ := List.pairwise_cons.1 h.pairwise
  have hafter : opening.stop ≤ c.start := hopening c (List.mem_append_left _ hc)
  have hbefore : c.stop ≤ closing.start :=
    (List.pairwise_append.1 hpairs).2.2 c hc closing (List.mem_singleton.2 rfl)
  have hwithin : c.start ≤ x.start ∧ x.stop ≤ c.stop :=
    subtree_within.1 c.tree c.origin c.start c.above x (List.mem_filter.1 hx).1
  have hleaf : x ∈ (top origin t).subtokens :=
    hroot.leaves ▸ leaves_subset (mem_subtree_child h.mem hchild) hx
  have hapart {s : Site} (hs : s ∈ block.children) (hne : c ≠ s) : c.stop ≤ s.start ∨ s.stop ≤ c.start :=
    related_of_ne block.children_pairwise hchild hs hne
  have hordered := start_le_stop c
  by_cases hfront : c.start < first.start
  · have hordered' := start_le_stop first
    have hle : c.stop ≤ first.start := by
      rcases hapart hfirst fun heq => absurd hfront (heq ▸ Nat.lt_irrefl _) with hle | hle <;> omega
    exact h.front_blank hroot hleaf hsolid (by omega) (by omega)
  by_cases hback : last.stop < c.stop
  · have hordered' := start_le_stop last
    have hle : last.stop ≤ c.start := by
      rcases hapart hlast fun heq => absurd hback (heq ▸ Nat.lt_irrefl _) with hle | hle <;> omega
    exact h.back_blank hroot hleaf hsolid (by omega) (by omega)
  have hin : (⟨first.start, last.stop⟩ : Span).covers c.span = true :=
    covers_span_iff.2 ⟨Nat.le_of_not_lt hfront, Nat.le_of_not_lt hback⟩
  rw [hin] at hout
  cases hout

/-- The tokens of the block, one after the other. -/
theorem leaves_eq : block.leaves = opening :: (body.flatMap leaves ++ [closing]) := by
  rw [leaves_of_children (by rw [h.children]; exact List.cons_ne_nil _ _), h.children, List.flatMap_cons,
    List.flatMap_append, List.flatMap_singleton, leaves_of_isToken (isToken_of_isTokenOf h.openBrace),
    leaves_of_isToken (isToken_of_isTokenOf h.closeBrace), List.singleton_append]

/-- The block holds the tokens of its children. -/
theorem tokens_eq : block.tree.tokens = tokensAll (block.children.map tree) := by
  rw [map_tree_children]
  cases htree : block.tree with
  | token k text =>
      have hmap := map_tree_children block
      rw [htree, h.children] at hmap
      cases hmap
  | node k cs => rfl

/-- The braces themselves are left out. -/
theorem filter_children (hsolid : ∀ x ∈ block.leaves, x.start < x.stop) :
    block.children.filter (fun t => (⟨first.start, last.stop⟩ : Span).covers t.span) =
      body.filter (fun t => (⟨first.start, last.stop⟩ : Span).covers t.span) := by
  obtain ⟨hfirst, hfirstNode⟩ := mem_of_statements (List.mem_of_head? h.head)
  obtain ⟨hlast, hlastNode⟩ := mem_of_statements (List.mem_of_getLast? h.tail)
  rw [h.children] at hfirst hlast
  have hopening : opening.stop ≤ first.start :=
    (List.pairwise_cons.1 h.pairwise).1 first
      ((List.mem_cons.1 hfirst).resolve_left (ne_of_isNode hfirstNode h.openBrace))
  have hclosing : last.stop ≤ closing.start := by
    rcases List.mem_append.1 (show last ∈ (opening :: body) ++ [closing] from hlast) with hmem | hmem
    · exact (List.pairwise_append.1
        (show ((opening :: body) ++ [closing]).Pairwise _ from h.pairwise)).2.2 last hmem closing
        (List.mem_singleton.2 rfl)
    · exact absurd (List.mem_singleton.1 hmem) (ne_of_isNode hlastNode h.closeBrace)
  have hopeningSolid := hsolid opening (by rw [h.leaves_eq]; simp)
  have hclosingSolid := hsolid closing (by rw [h.leaves_eq]; simp)
  rw [h.children, List.filter_cons_of_neg, List.filter_append, List.filter_cons_of_neg, List.filter_nil,
    List.append_nil]
  · intro hin
    have := (covers_span_iff.1 hin).2
    simp only at this
    omega
  · intro hin
    have := (covers_span_iff.1 hin).1
    simp only at this
    omega

/-- **The parts that are put in the place of the block** hold the tokens between the braces, but for
white space and line breaks. -/
theorem kept_parts (hroot : Clean (top origin t)) (hsolid : ∀ x ∈ block.leaves, x.start < x.stop) :
    (tokensAll (partsSplice block first last).replacement.elements).filter isKept =
      ((body.flatMap leaves).map stored).filter isKept := by
  show (tokensAll ((block.children.filter _).map tree)).filter isKept = _
  rw [h.filter_children hsolid]
  refine filter_kept_parts (fun c hc => ?_) fun c hc hout x hx => ?_
  · exact hroot.tokens_eq_leaves (mem_subtree_child h.mem (by simp [h.children, hc]))
  · have hleaf : x ∈ block.leaves := by
      rw [h.leaves_eq]
      exact List.mem_cons_of_mem _ (List.mem_append_left _ (List.mem_flatMap.2 ⟨c, hc, hx⟩))
    rcases h.left_out hroot hc hout hx (hsolid x hleaf) with hkind | hkind <;>
      simp [isKept, stored, hkind]

end Plain

/-! ## The splices of the fix -/

/-- Splices behind the one for the block: none, or a line break that keeps the next section off. -/
def Separates (block : Site) (more : List Splice) : Prop :=
  more = [] ∨ ∃ gap offset, gapBehind? block = some gap ∧ gap.blankLineInsertion? = some offset ∧
    more = [.insert offset ⟨[Snippet.newline gap.lineBreakText], []⟩]

/-- Taking the braces away is one splice over the block and others in the gaps around it. -/
theorem unwrap_ok {d : Document} {e : Editor} (h : unwrap ⟨d, []⟩ block first last = .ok e) :
    ∃ more, e = ⟨d, partsSplice block first last :: more⟩ ∧ Separates block more := by
  obtain ⟨e₁, hreplace, h⟩ := bind_eq_ok h
  obtain ⟨-, -, hreplace⟩ := bind_eq_ok hreplace
  obtain rfl := Editor.replaceNode_ok hreplace
  split at h
  · exact ⟨[], (Except.ok.inj h).symm, .inl rfl⟩
  · next gap hgap =>
    split at h
    · exact ⟨[], (Except.ok.inj h).symm, .inl rfl⟩
    · next offset hoffset =>
      exact ⟨_, Editor.insertAt_ok h, .inr ⟨gap, offset, hgap, hoffset, rfl⟩⟩

/-- The line break that gets a second one. -/
theorem exists_line {gap : Gap} {offset : Nat} (hlast : block.lastSignificant? = some closing)
    (hgap : gapBehind? block = some gap) (hoffset : gap.blankLineInsertion? = some offset) :
    ∃ run line rest, closing.triviaAfter = run ++ line :: rest ∧ line.kind = .newline ∧
      offset = line.stop ∧ gap.lineBreakText = line.text := by
  obtain ⟨parent, -, hgap⟩ := Option.bind_eq_some_iff.1 hgap
  obtain ⟨next, -, hgap⟩ := Option.bind_eq_some_iff.1 hgap
  obtain ⟨-, -, hgap⟩ := Option.bind_eq_some_iff.1 hgap
  obtain ⟨hgap, -⟩ := Option.filter_eq_some_iff.1 hgap
  obtain ⟨a, ha, hgap⟩ := Option.bind_eq_some_iff.1 hgap
  obtain ⟨b, -, hgap⟩ := Option.bind_eq_some_iff.1 hgap
  obtain ⟨c, -, hgap⟩ := Option.bind_eq_some_iff.1 hgap
  obtain ⟨-, -, hgap⟩ := Option.bind_eq_some_iff.1 hgap
  obtain rfl : closing = a := Option.some.inj (hlast.symm.trans ha)
  obtain rfl := Option.some.inj hgap
  unfold Gap.blankLineInsertion? at hoffset
  split at hoffset
  · next hkind =>
    obtain ⟨run, line, rest, htrivia, hline, -, -, hbreaks⟩ := exists_break (beq_iff_eq.1 hkind)
    rw [hbreaks] at hoffset
    refine ⟨run, line, rest, htrivia, hline, (Option.some.inj hoffset).symm, ?_⟩
    rw [Gap.lineBreakText, hbreaks]
    rfl
  · cases hoffset

/-- One more line break behind a token. -/
theorem stitched_line {root stop line : Site} (hroot : Clean root) {left right run rest : List Site}
    (hsplit : root.subtokens = left ++ closing :: (right ++ [stop]))
    (htrivia : closing.triviaAfter = run ++ line :: rest) (hline : line.kind = .newline) :
    ∃ front back, right = front ++ line :: back ∧
      Stitched closing.stop (right.map stored) [.insert line.stop ⟨[Snippet.newline line.text], []⟩]
        ((front ++ line :: line :: back).map stored) := by
  have hstop : stop.isTrivia = false :=
    isTrivia_of_isSignificant (hroot.ends stop (by simp [hsplit, List.getLast?_cons]))
  rw [triviaAfter, hroot.chain.after left closing _ hsplit] at htrivia
  obtain ⟨tail, rfl⟩ : ∃ tail, right = run ++ line :: (rest ++ tail) := by
    rcases List.prefix_concat_iff.1 (List.takeWhile_prefix Site.isTrivia (l := right ++ [stop])) with
      hall | ⟨tail, htail⟩
    · have hmem : stop ∈ (right ++ [stop]).takeWhile Site.isTrivia := by rw [hall]; simp
      rw [List.mem_takeWhile_imp hmem] at hstop
      cases hstop
    · exact ⟨tail, by rw [← htail, htrivia]; simp⟩
  refine ⟨run, rest ++ tail, rfl, ?_⟩
  have hrun : root.subtokens = left ++ closing :: (run ++ line :: (rest ++ tail ++ [stop])) := by
    rw [hsplit]
    simp
  have hstart : line.stop = closing.stop + widthOf ((run ++ [line]).map stored) := by
    rw [hroot.stop_of_run hrun, List.map_append, widthOf_append]
    simp [stored, Nat.add_assoc]
  have hbehind := @Stitched.swap _ ((run ++ [line]).map stored) [] _ _
    (.insert line.stop ⟨[Snippet.newline line.text], []⟩) _
    (.inl (by simp)) hstart hstart (.rest _ ((rest ++ tail).map stored))
  have hnew : tokensAll (Splice.insert line.stop
      ⟨[Snippet.newline line.text], []⟩).replacement.elements = [line.stored] := by
    simp [Splice.insert, Snippet.newline, tokensAll, Tree.tokens, stored, hline]
  rw [hnew] at hbehind
  simpa using hbehind

/-- What comes behind the block changes by line breaks only. -/
theorem exists_behind {root stop : Site} (hroot : Clean root) {left right : List Site}
    (hsplit : root.subtokens = left ++ closing :: (right ++ [stop]))
    (hlast : block.lastSignificant? = some closing) {more : List Splice} (hmore : Separates block more)
    (hsolid : ∀ x ∈ right, x.text ≠ "") :
    ∃ ys, Stitched closing.stop (right.map stored) more ys ∧
      ys.filter isKept = (right.map stored).filter isKept ∧ ∀ y ∈ ys, y.2 ≠ "" := by
  rcases hmore with rfl | ⟨gap, offset, hgap, hoffset, rfl⟩
  · refine ⟨_, .rest _ _, rfl, fun y hy => ?_⟩
    obtain ⟨x, hx, rfl⟩ := List.mem_map.1 hy
    exact hsolid x hx
  · obtain ⟨run, line, rest, htrivia, hline, rfl, hbreak⟩ := exists_line hlast hgap hoffset
    obtain ⟨front, back, rfl, hstitched⟩ := stitched_line hroot hsplit htrivia hline
    rw [hbreak]
    refine ⟨_, hstitched, ?_, fun y hy => ?_⟩
    · have hblank : isKept line.stored = false := by simp [isKept, stored, hline]
      simp [hblank]
    · obtain ⟨x, hx, rfl⟩ := List.mem_map.1 hy
      refine hsolid x ?_
      rcases List.mem_append.1 hx with hx | hx
      · exact List.mem_append_left _ hx
      · rcases List.mem_cons.1 hx with rfl | hx
        · simp
        · exact List.mem_append_right _ hx

/-! ## What is reported -/

/-- Where the gap between two tokens may be changed, there are two tokens with a gap between
them. -/
theorem exists_gap {a b : Option Site}
    (h : (match a, b with
      | some a, some b => (Gap.betweenTokens? a b).any Gap.isFixable
      | _, _ => false) = true) :
    ∃ x y gap, a = some x ∧ b = some y ∧ Gap.betweenTokens? x y = some gap ∧ gap.isFixable = true := by
  split at h
  · next x y =>
    obtain ⟨gap, hgap, hfix⟩ := (Option.any_eq_true _ _).1 h
    exact ⟨x, y, gap, rfl, rfl, hgap, hfix⟩
  · cases h

/-- The children of a block that has an opening brace. -/
theorem exists_children {version : Nat} {text : String}
    (herr : (Document.ofText version text).errors = [])
    (hmem : block ∈ (Document.ofText version text).root.subtree) (hnode : block.isNode = true)
    (hkind : block.kind = .block) (hopening : block.openBrace? = some opening)
    (hclosing : block.closeBrace? = some closing) :
    ∃ body, block.children = opening :: (body ++ [closing]) ∧ opening.isTokenOf .lBrace = true ∧
      closing.isTokenOf .rBrace = true := by
  obtain ⟨a, body, b, hsplit, hbody, hb⟩ : ∃ a body b, block.children = a :: (body ++ [b]) ∧
      Parse.Unopened (body.map tree) ∧ b.isTokenOf .rBrace = true := by
    have hbracketed := everyNode_of_mem.1 _ _ _ _ (parse_bracketed herr) block hmem
    have hmap := map_tree_children block
    cases htree : block.tree with
    | token k spelling =>
        rw [Site.isNode, htree] at hnode
        cases hnode
    | node k cs =>
        rw [htree] at hbracketed hmap
        obtain ⟨c, ds, spelling, hcs, hunopened⟩ :=
          hbracketed.1 (by rw [← hkind, Site.kind, htree]; rfl)
        rw [show (Tree.node k cs).children = cs from rfl, hcs] at hmap
        obtain ⟨a, rest, hsplit, -, hrest⟩ := List.map_eq_cons_iff.1 hmap
        obtain ⟨body, ends, rfl, rfl, hends⟩ := List.map_eq_append_iff.1 hrest
        obtain ⟨b, rfl, hb⟩ := List.map_eq_singleton_iff.1 hends
        exact ⟨a, body, b, hsplit, hunopened, by rw [Site.isTokenOf, hb]; rfl⟩
  rw [openBrace?, token?_eq, hsplit] at hopening
  rw [closeBrace?, lastTokenOf?_eq, hsplit, ← List.cons_append, List.filter_append,
    List.filter_cons_of_pos hb, List.filter_nil, List.getLast?_append] at hclosing
  obtain rfl : b = closing := Option.some.inj hclosing
  obtain ⟨hmem, hopen⟩ := List.mem_filter.1 (List.mem_of_head? hopening)
  -- what has no opening brace behind its first child has it there
  have hfirst : opening = a := by
    refine (List.mem_cons.1 hmem).resolve_right fun hrest => ?_
    rcases List.mem_append.1 hrest with hmem | hmem
    · exact Bool.false_ne_true ((hbody _ (List.mem_map_of_mem hmem)).symm.trans hopen)
    · obtain rfl := List.mem_singleton.1 hmem
      obtain ⟨spelling, htree⟩ := tree_of_isTokenOf hb
      rw [Site.isTokenOf, htree] at hopen
      cases hopen
  exact ⟨body, hfirst ▸ hsplit, hopen, hb⟩

/-- **A block that is reported is plain.** -/
theorem exists_plain {version : Nat} {text : String}
    (herr : (Document.ofText version text).errors = []) {sect : Site}
    (hsect : sect ∈ (Document.ofText version text).root.subnodes)
    (hblock : redundantBlock? sect = some block) :
    block ∈ sect.children ∧ block.isNode = true ∧ block.kind = .block ∧
      ∃ opening closing first last body, block.openBrace? = some opening ∧
        block.closeBrace? = some closing ∧
        Plain (Document.ofText version text).root block opening closing first last body := by
  obtain ⟨b, hsole, hguard⟩ := Option.bind_eq_some_iff.1 hblock
  obtain ⟨-, hguard, hsome⟩ := Option.bind_eq_some_iff.1 hguard
  obtain rfl := Option.some.inj hsome
  have hplain : hasPlainBraces b = true := by
    by_contra hnot
    simp [hnot, guard] at hguard
  obtain ⟨hchild, hnode, hkind⟩ : b ∈ sect.children ∧ b.isNode = true ∧ b.kind = .block := by
    unfold soleBlock? at hsole
    split at hsole
    · next b' hstatements =>
      split at hsole
      · next hkind =>
        obtain rfl := Option.some.inj hsole
        obtain ⟨hchild, hnode⟩ := mem_of_statements (show b' ∈ sect.statements by simp [hstatements])
        exact ⟨hchild, hnode, beq_iff_eq.1 hkind⟩
      · cases hsole
    · cases hsole
  have hmem : b ∈ (Document.ofText version text).root.subtree :=
    mem_subtree_child (List.mem_filter.1 hsect).1 hchild
  obtain ⟨hfront, hback⟩ := Bool.and_eq_true_iff.1 hplain
  obtain ⟨opening, word, gap, hopening, hword, hgap, hfix⟩ := exists_gap hfront
  obtain ⟨word', closing, gap', hword', hclosing, hgap', hfix'⟩ := exists_gap hback
  obtain ⟨first, hfirst, hword⟩ := Option.bind_eq_some_iff.1 hword
  obtain ⟨last, hlast, hword'⟩ := Option.bind_eq_some_iff.1 hword'
  obtain ⟨body, hchildren, hopen, hclose⟩ := exists_children herr hmem hnode hkind hopening hclosing
  exact ⟨hchild, hnode, hkind, opening, closing, first, last, body, hopening, hclosing,
    hmem, hchildren, hopen, hclose, hfirst, hlast, ⟨word, gap, hword, hgap, hfix⟩,
    ⟨word', gap', hword', hgap', hfix'⟩⟩

/-! ## The fix -/

/-- The block starts with its opening brace and ends with its closing brace. -/
theorem Plain.framed (h : Plain (top origin t) block opening closing first last body)
    (hroot : Clean (top origin t)) {sect : Site} (hsect : sect ∈ (top origin t).subtree)
    (hchild : block ∈ sect.children) (hnode : block.isNode = true) : Framed block opening closing := by
  obtain ⟨a, b, hframed⟩ := framed_child hroot hsect hchild hnode
  obtain ⟨others, hheads⟩ := hframed.heads
  obtain ⟨others', hends⟩ := hframed.ends
  rw [h.leaves_eq] at hheads hends
  obtain rfl : opening = a := (List.cons.inj hheads).1
  obtain rfl : closing = b := by
    rw [← List.cons_append] at hends
    exact (List.cons.inj (List.append_inj' hends rfl).2).1
  exact hframed

/-- The tokens after the splices. -/
theorem Plain.stitched (h : Plain (top origin t) block opening closing first last body)
    (hroot : Clean (top origin t)) (hframed : Framed block opening closing) {left right : List Site}
    {stop : Site} (hsplit : (top origin t).subtokens = left ++ (block.leaves ++ (right ++ [stop])))
    {more : List Splice} {ys : Stored} (hbehind : Stitched closing.stop (right.map stored) more ys) :
    Stitched 0 ((left ++ (block.leaves ++ right)).map stored) (partsSplice block first last :: more)
      (left.map stored ++ (tokensAll (partsSplice block first last).replacement.elements ++ ys)) := by
  have hwidth {ls : List Site} (hls : ls ⊆ (top origin t).subtokens) :
      widthOf (ls.map stored) = widthOfSites ls :=
    widthOf_stored fun x hx => (List.mem_filter.1 (hls hx)).2
  have hleft := @hwidth left fun x hx => by rw [hsplit]; exact List.mem_append_left _ hx
  have hcut := @hwidth block.leaves fun x hx => by
    rw [hsplit]
    exact List.mem_append_right _ (List.mem_append_left _ hx)
  have hstart : block.span.start = 0 + widthOf (left.map stored) := by
    rw [hframed.span_eq, hleft, Nat.zero_add]
    exact hroot.chain.start left opening _ (by rw [hsplit, h.leaves_eq, List.cons_append])
  have hstop : closing.stop = 0 + widthOf (left.map stored) + widthOf (block.leaves.map stored) := by
    have hends : (top origin t).subtokens =
        (left ++ opening :: body.flatMap leaves) ++ closing :: (right ++ [stop]) := by
      rw [hsplit, h.leaves_eq]
      simp
    rw [hroot.chain.stop_eq hends, hleft, hcut, Nat.zero_add, ← widthOfSites_append, h.leaves_eq]
    simp
  have hspan : block.span.stop = closing.stop := by rw [hframed.span_eq]
  rw [List.map_append, List.map_append]
  refine .swap ?_ hstart (hspan.trans hstop) (hstop ▸ hbehind)
  refine or_iff_not_imp_left.2 fun _ => ⟨rfl, ?_⟩
  rw [h.leaves_eq]
  exact List.cons_ne_nil _ _

/-- The statements have no more text than the block. -/
theorem partsSplice_growth_le (block first last : Site) : (partsSplice block first last).growth ≤ 0 := by
  have hparts : widthAll ((block.children.filter fun t =>
      (⟨first.start, last.stop⟩ : Span).covers t.span).map tree) ≤ block.tree.width := by
    refine Nat.le_trans (widthAll_le_of_sublist (List.filter_sublist.map tree)) ?_
    rw [map_tree_children]
    cases block.tree with
    | token k text => exact Nat.zero_le _
    | node k cs => exact Nat.le_refl _
  have hspan : (partsSplice block first last).span.length = block.tree.width := by
    show block.start + block.tree.width - block.start = block.tree.width
    omega
  rw [Splice.growth, hspan]
  exact Int.sub_nonpos_of_le (Int.ofNat_le.2 hparts)

/-- The line break behind the block moves towards the start of the text. -/
theorem reachable_of_separates {more : List Splice} {xs ys : Stored} (hmore : Separates block more)
    (h : Stitched 0 xs (partsSplice block first last :: more) ys) (hxs : ∀ x ∈ xs, x.2 ≠ "") :
    Patch.Reachable 0 (partsSplice block first last :: more) := by
  refine h.reachable hxs (Nat.le_refl _) (Or.inl ?_)
  rcases hmore with rfl | ⟨gap, offset, -, -, rfl⟩
  · exact fun s hs => nomatch hs
  · exact List.forall_mem_singleton.2 (partsSplice_growth_le block first last)

/-- **The splices go through and leave all but the braces.** -/
theorem exists_braceless {version : Nat} {text : String}
    (herr : (Document.ofText version text).errors = [])
    (h : Plain (Document.ofText version text).root block opening closing first last body)
    (hframed : Framed block opening closing) {more : List Splice} (hmore : Separates block more) :
    ∃ left inner right, (Document.ofText version text).root.subtokens =
        left ++ opening :: (inner ++ closing :: right) ∧
      ∀ stamp, ∃ o, (⟨version, partsSplice block first last :: more⟩ : Patch).apply
          (.ofText version text) stamp = .ok o ∧
        o.document.tree.tokens.filter isKept = ((left ++ (inner ++ right)).map stored).filter isKept := by
  have hroot := Document.clean_root herr
  obtain ⟨spelling, hclosing⟩ := tree_of_isTokenOf h.closeBrace
  have hleaves := h.leaves_eq
  have hkind : closing.kind ≠ .endOfFile := by simp [Site.kind, hclosing, Tree.kind]
  obtain ⟨cs, left, right, stop, hstop, htree, hsplit, hcs, htext⟩ :=
    Document.exists_around herr h.mem (by rw [hleaves, List.cons_append]) hkind
  have hsolid : ∀ x ∈ block.leaves, x.start < x.stop := by
    intro x hx
    obtain ⟨htoken, hne⟩ := htext x (by simp [hx])
    have hpos := Nat.pos_of_ne_zero fun hzero => hne (String.utf8ByteSize_eq_zero_iff.1 hzero)
    rw [stop_eq, Site.width_of_isToken htoken]
    omega
  have hends : (Document.ofText version text).root.subtokens =
      (left ++ opening :: body.flatMap leaves) ++ closing :: (right ++ [stop]) := by
    rw [hsplit, hleaves]
    simp
  -- the splice behind the block, if there is one, only sets a gap
  obtain ⟨ys, hbehind, hys, hyssolid⟩ := exists_behind hroot hends hframed.lastSignificant hmore
    fun x hx => (htext x (by simp [hx])).2
  have hparts : tokensAll (partsSplice block first last).replacement.elements ⊆
      block.leaves.map stored := by
    rw [← hroot.tokens_eq_leaves h.mem, h.tokens_eq]
    exact (tokensAll_sublist (List.filter_sublist.map tree)).subset
  refine ⟨left, body.flatMap leaves, right ++ [stop], by rw [hsplit, hleaves]; simp, fun stamp => ?_⟩
  have hold : ∀ x ∈ (left ++ (block.leaves ++ right)).map stored, x.2 ≠ "" := by
    intro x hx
    obtain ⟨y, hy, rfl⟩ := List.mem_map.1 hx
    exact (htext y hy).2
  -- no token of the new tree is empty, so the new text reads back as these tokens
  have hnew : ∀ y ∈ left.map stored ++
      (tokensAll (partsSplice block first last).replacement.elements ++ ys), y.2 ≠ "" := by
    intro y hy
    rcases List.mem_append.1 hy with hy | hy
    · exact hold y (by rw [List.map_append]; exact List.mem_append_left _ hy)
    rcases List.mem_append.1 hy with hy | hy
    · refine hold y ?_
      rw [List.map_append, List.map_append]
      exact List.mem_append_right _ (List.mem_append_left _ (hparts hy))
    · exact hyssolid y hy
  -- both splices are made at once
  have hstitched := h.stitched hroot hframed hsplit hbehind
  obtain ⟨o, ho, -, htokens⟩ := hstitched.apply htree hcs hold hnew (List.Perm.refl _)
    (reachable_of_separates hmore hstitched hold) stamp
  refine ⟨o, ho, ?_⟩
  have hend : (Tree.token .endOfFile "").tokens = [stop].map stored := by
    rw [List.map_singleton, hstop, Tree.tokens]
  rw [htokens, hend]
  simp only [List.filter_append, List.map_append, hys, h.kept_parts hroot hsolid, List.append_assoc]

/-- Every action that is offered takes the braces away. -/
theorem fix_ok {c : Context} {d : Diagnostic} {actions : List CodeAction}
    (hnode : c.nodeAt? d.span = some block) (hkind : block.kind = .block)
    (hhead : block.statements.head? = some first) (htail : block.statements.getLast? = some last)
    (h : fix c d = .ok actions) : ∀ a ∈ actions, ∃ more,
      a.patch = ⟨c.document.version, partsSplice block first last :: more⟩ ∧ Separates block more := by
  have hfound : (c.nodeAt? d.span).filter (·.kind == .block) = some block := by
    rw [hnode, Option.filter_some, if_pos (beq_iff_eq.2 hkind)]
  unfold fix at h
  rw [hfound] at h
  simp only [hhead, htail] at h
  obtain ⟨e, hunwrap, h⟩ := bind_eq_ok h
  obtain ⟨more, rfl, hmore⟩ := unwrap_ok hunwrap
  obtain rfl := Except.ok.inj h
  intro a ha
  obtain rfl := List.mem_singleton.1 ha
  exact ⟨more, rfl, hmore⟩

/-- **The fix takes the two braces away and nothing else.**  For whatever is reported in a text without
errors, an action on offer can be applied; in the tree that it gives, all tokens but white space and
line breaks are those of the old tree without the opening and the closing brace of the block. -/
theorem braces_removed {version : Nat} {text : String} {options : Options} {cancel : Cancellation}
    {report : Report} {d : Diagnostic} {actions : List CodeAction} {action : CodeAction}
    (herr : (Document.ofText version text).errors = [])
    (hreport : builtin.analyze (.ofText version text) options cancel = .ok report)
    (hd : d ∈ report.diagnostics) (hid : d.id = descriptor.id)
    (hactions : builtin.fixes (.ofText version text) d options = .ok actions)
    (haction : action ∈ actions) :
    ∃ block ∈ (Document.ofText version text).root.subnodes, block.kind = .block ∧ d.span = block.span ∧
      ∃ opening closing left inner right, block.openBrace? = some opening ∧
        block.closeBrace? = some closing ∧
        (Document.ofText version text).root.subtokens =
          left ++ opening :: (inner ++ closing :: right) ∧
        ∀ stamp, ∃ o, action.patch.apply (.ofText version text) stamp = .ok o ∧
          o.document.tree.tokens.filter isKept =
            ((left ++ (inner ++ right)).map stored).filter isKept := by
  have hdispatch : builtin.dispatch d = [provider] := by
    rw [Registry.dispatch, hid]
    rfl
  have hfix : fix (.ofDocument (.ofText version text) options) d = .ok actions :=
    Offer.of_settle_ofEdits (Registry.fixesIn_eq hdispatch (Registry.fixesIn_of_fixes hactions))
      (List.ne_nil_of_mem haction)
  have hrules : builtin.analyzers = [] ++ analyzer :: builtin.analyzers.drop 1 := rfl
  obtain ⟨sect, hsect, -, f, hf, hdiagnostic⟩ :=
    Registry.exists_finding_of_id builtin_calm hrules (by decide) hreport hd hid
  obtain ⟨severity, rfl⟩ := Analyzer.diagnostic?_eq hdiagnostic
  obtain ⟨block, hblock, rfl⟩ := List.mem_map.1 hf
  obtain ⟨hchild, hnode, hkind, opening, closing, first, last, body, hopening, hclosing, hplain⟩ :=
    exists_plain herr hsect (Option.mem_toList.1 hblock)
  have hroot := Document.clean_root herr
  have hframed := hplain.framed hroot (List.mem_filter.1 hsect).1 hchild hnode
  have hfound : (Context.ofDocument (.ofText version text) options).nodeAt? block.span = some block := by
    have hword := mem_words.1 (word_of_child hplain.mem hplain.opening_mem hplain.openBrace rfl)
    obtain ⟨spelling, htree⟩ := tree_of_isTokenOf hplain.openBrace
    refine findNode?_span hplain.mem hnode
      (map_tree_children block ▸ List.mem_map_of_mem hplain.opening_mem) (by rw [htree]; rfl)
      (hroot.width_pos hword.1 ?_) .following
    simp [Site.kind, htree, Tree.kind]
  obtain ⟨more, hpatch, hmore⟩ := fix_ok hfound hkind hplain.head hplain.tail hfix action haction
  obtain ⟨left, inner, right, hsplit, happly⟩ := exists_braceless herr hplain hframed hmore
  refine ⟨block, List.mem_filter.2 ⟨hplain.mem, hnode⟩, hkind, rfl, opening, closing, left, inner, right,
    hopening, hclosing, hsplit, ?_⟩
  rw [hpatch]
  exact happly

/-- A comment stays, and the next section is kept off by one more line break. -/
theorem braces_removed_comment :
    let document := Document.ofText 1
      "class C \x7b void M() \x7b switch (1) \x7b\ncase 1: // one\n\x7b break; \x7d\ndefault: break; \x7d \x7d \x7d"
    ∃ d action applied, builtin.Mended document {} d action applied ∧
      applied.document.text = "class C \x7b void M() \x7b switch (1) \x7b\ncase 1: // one\n" ++
        "                break;\n\ndefault: break; \x7d \x7d \x7d" ∧
      ∃ block ∈ document.root.subnodes, block.kind = .block ∧ d.span = block.span ∧
        ∃ opening closing left inner right, block.openBrace? = some opening ∧
          block.closeBrace? = some closing ∧
          document.root.subtokens = left ++ opening :: (inner ++ closing :: right) ∧
          ∀ stamp, ∃ o, action.patch.apply document stamp = .ok o ∧
            o.document.tree.tokens.filter isKept =
              ((left ++ (inner ++ right)).map stored).filter isKept := by
  intro document
  obtain ⟨⟨d, action, applied⟩, hmem, hid, htext⟩ : ∃ x ∈ builtin.mendings document {},
      x.1.id = descriptor.id ∧ x.2.2.document.text =
        "class C \x7b void M() \x7b switch (1) \x7b\ncase 1: // one\n" ++
        "                break;\n\ndefault: break; \x7d \x7d \x7d" := by
    decide +kernel
  have hmended := Registry.mended_of_mem hmem
  obtain ⟨cancel, report, hreport, hd⟩ := hmended.reported
  obtain ⟨actions, hactions, haction⟩ := hmended.offered
  exact ⟨d, action, applied, hmended, htext,
    braces_removed (by decide +kernel) hreport hd hid hactions haction⟩

end Rules.SwitchBraces

end CodeMend
