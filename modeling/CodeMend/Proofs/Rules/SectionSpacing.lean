import CodeMend.Proofs.Rules.LineRules

/-!
# Blank lines between switch sections

The rule about blank lines between switch sections demands that there be one behind each section, or
none, as the option says.  It reports at a label of the section behind the gap; from the span of the
label the fix finds the section and the one before it (`Neighbours.gapBefore?`), so it is a sound
rule about lines (`SectionSpacing.sound`).
-/

namespace CodeMend

open Tree Site

/-! ## First and last words of a node -/

/-- The first and the last word of a node. -/
structure Ends (root n first last : Site) : Prop where
  firstSignificant : n.firstSignificant? = some first
  lastSignificant : n.lastSignificant? = some last
  first_word : first ∈ root.words
  last_word : last ∈ root.words
  first_rank : first.rank = n.rank
  last_rank : last.rank + 1 = n.rank + n.weight
  weight_pos : 0 < n.weight

/-- The words of a node are its leaves but for trivia. -/
theorem Clean.words_eq_leaves {root n : Site} (hroot : Clean root) (hn : n ∈ root.subtree) :
    n.words = n.leaves.filter isSignificant := by
  have htoken : ∀ r ∈ n.leaves, r.isToken = true := by
    intro r hr
    obtain ⟨left, right, hleaves⟩ := leaves_of_mem.1 _ _ _ _ n hn
    have hmem : r ∈ root.leaves := by
      rw [leaves_eq, hleaves]
      simp [hr]
    rw [hroot.leaves] at hmem
    exact (List.mem_filter.1 hmem).2
  rw [words, subtokens, Site.leaves]
  refine congrArg _ (List.filter_congr fun r hr => ?_)
  refine Bool.eq_iff_iff.2 ⟨fun htok => ?_, fun hleaf => ?_⟩
  · obtain ⟨k, text, htree, -⟩ := isTrivia_of_isToken htok
    simp [isLeaf, htree, Tree.children]
  · exact htoken r (List.mem_filter.2 ⟨hr, hleaf⟩)

/-- A node below the whole tree starts and ends with a word. -/
theorem Clean.exists_ends {root n : Site} (hroot : Clean root) (hn : n ∈ root.subtree)
    (hnode : n.isNode = true) (hne : n ≠ root) : ∃ first last, Ends root n first last := by
  obtain ⟨first, last, h⟩ := hroot.framed n (List.mem_filter.2 ⟨hn, hnode⟩) hne
  obtain ⟨others, hheads⟩ := h.heads
  obtain ⟨others', hends⟩ := h.ends
  have hwords := hroot.words_eq_leaves hn
  have hfirst : n.words = [] ++ first :: others.filter isSignificant := by
    rw [hwords, hheads, List.filter_cons_of_pos h.significant.1]
    rfl
  have hlast : n.words = others'.filter isSignificant ++ [last] := by
    rw [hwords, hends, List.filter_append, List.filter_cons_of_pos h.significant.2]
    rfl
  have hlength := length_words n
  rw [hlast, List.length_append, List.length_singleton] at hlength
  exact ⟨first, last, h.firstSignificant, h.lastSignificant,
    words_subset hn (by rw [hfirst]; simp), words_subset hn (by rw [hlast]; simp),
    rank_eq_of_words hfirst, by rw [rank_eq_of_words hlast]; omega, by omega⟩

/-! ## Blank lines between switch sections -/

namespace Rules.SectionSpacing

/-- Behind a section that is followed by one with labels: a blank line or none, as the style
wants. -/
def demand (style : SectionStyle) (previous next : Site) : List Demand :=
  if next.rank = previous.rank + previous.weight ∧ next.labels.head?.isSome = true then
    (previous.lastSignificant?.map (·, style.wantsBlankLine previous)).toList
  else []

/-- What is demanded between the sections of a switch. -/
def own (o : Options) (s : Site) : List Demand :=
  (List.zipWith (demand (style o)) s.sections (s.sections.drop 1)).flatten

/-- The rule about blank lines between switch sections. -/
def lineRule : LineRule := ⟨descriptor, [.switchStatement], findings, fix, own⟩

/-- Two sections of a switch with no section between them. -/
structure Neighbours (s previous next : Site) : Prop where
  previous_node : previous.isNode = true
  next_node : next.isNode = true
  next_kind : next.kind = .switchSection
  previous_kind : previous.kind = .switchSection
  split : ∃ left between right, s.children = left ++ previous :: (between ++ next :: right)

/-- A pair of neighbours stands next to each other in the list. -/
theorem exists_split_of_mem_zip {α : Type} {l : List α} {a b : α} (h : (a, b) ∈ l.zip (l.drop 1)) :
    ∃ left right, l = left ++ a :: b :: right := by
  induction l with
  | nil => cases h
  | cons x l ih =>
      cases l with
      | nil => cases h
      | cons y l =>
          rcases List.mem_cons.1 h with heq | h
          · obtain ⟨rfl, rfl⟩ := Prod.mk.inj heq
            exact ⟨[], l, rfl⟩
          · obtain ⟨left, right, hsplit⟩ := ih h
            exact ⟨x :: left, right, by rw [hsplit, List.cons_append]⟩

/-- Sections that follow each other are neighbours. -/
theorem neighbours_of_mem_zip {s previous next : Site}
    (h : (previous, next) ∈ s.sections.zip (s.sections.drop 1)) : Neighbours s previous next := by
  obtain ⟨left, right, hsplit⟩ := exists_split_of_mem_zip h
  have hsection : ∀ r ∈ s.sections, r.isNode = true ∧ r.kind = .switchSection := by
    intro r hr
    obtain ⟨hr, hkind⟩ := List.mem_filter.1 hr
    exact ⟨(List.mem_filter.1 hr).2, beq_iff_eq.1 hkind⟩
  obtain ⟨hpnode, hpkind⟩ := hsection previous (by rw [hsplit]; simp)
  obtain ⟨hnnode, hnkind⟩ := hsection next (by rw [hsplit]; simp)
  refine ⟨hpnode, hnnode, hnkind, hpkind, ?_⟩
  rw [sections, childrenOf, nodes, List.filter_filter] at hsplit
  obtain ⟨first, rest, hchildren, -, hrest⟩ := List.filter_eq_append_iff.1 hsplit
  obtain ⟨more, rest', rfl, -, -, hrest'⟩ := List.filter_eq_cons_iff.1 hrest
  obtain ⟨between, last, rfl, -, -, -⟩ := List.filter_eq_cons_iff.1 hrest'
  exact ⟨first ++ more, between, last, by rw [hchildren]; simp⟩

variable {c : Context} {s previous next : Site}

theorem Neighbours.mem (h : Neighbours s previous next) :
    previous ∈ s.children ∧ next ∈ s.children := by
  obtain ⟨left, between, right, hsplit⟩ := h.split
  rw [hsplit]
  simp

theorem ne_root_of_mem_children {r : Site} (hr : r ∈ s.children) : r ≠ c.root := by
  rintro rfl
  cases parent?_of_mem_children hr

/-- The section before one that follows it right away is the node before it. -/
theorem Neighbours.prevNode? (h : Neighbours s previous next) (hc : c.Sound)
    (hs : s ∈ c.root.subtree) (hrank : next.rank = previous.rank + previous.weight) :
    next.prevNode? = some previous := by
  obtain ⟨left, between, right, hsplit⟩ := h.split
  have hnone : ∀ r ∈ between, r.isNode = false := by
    intro r hr
    refine Bool.eq_false_iff.2 fun hnode => ?_
    have hchild : r ∈ s.children := by rw [hsplit]; simp [hr]
    obtain ⟨_, _, hends⟩ := hc.clean.exists_ends (mem_subtree_child hs hchild) hnode
      (ne_root_of_mem_children hchild)
    have hpos := hends.weight_pos
    have hpairs := children_ranked s
    rw [hsplit] at hpairs
    obtain ⟨hfirst, hrest⟩ := List.pairwise_cons.1 (List.pairwise_append.1 hpairs).2.1
    have hbefore := hfirst r (by simp [hr])
    have hbehind := (List.pairwise_append.1 hrest).2.2 r hr next List.mem_cons_self
    omega
  have hsiblings : s.children = (left ++ previous :: between) ++ next :: right := by
    rw [hsplit]
    simp
  rw [Site.prevNode?, leftSiblings_of_split hsiblings, List.reverse_append, List.reverse_cons,
    List.append_assoc, List.find?_append,
    List.find?_eq_none.2 fun r hr => by simp [hnone r (List.mem_reverse.1 hr)]]
  simp [h.previous_node]

/-- A section and the words at its ends. -/
theorem Neighbours.exists_ends (h : Neighbours s previous next) (hc : c.Sound)
    (hs : s ∈ c.root.subtree) :
    (∃ first last, Ends c.root previous first last) ∧ ∃ first last, Ends c.root next first last :=
  ⟨hc.clean.exists_ends (mem_subtree_child hs h.mem.1) h.previous_node
      (ne_root_of_mem_children h.mem.1),
    hc.clean.exists_ends (mem_subtree_child hs h.mem.2) h.next_node
      (ne_root_of_mem_children h.mem.2)⟩

/-- The gap between two sections is the one behind the last word of the first. -/
theorem between?_eq (hc : c.Sound) {first last first' last' : Site}
    (hprevious : Ends c.root previous first last) (hnext : Ends c.root next first' last') :
    Gap.between? previous next =
      if next.rank = previous.rank + previous.weight then some last.gapAfter else none := by
  have hiff : first'.rank = last.rank + 1 ↔ next.rank = previous.rank + previous.weight := by
    rw [hnext.first_rank, hprevious.last_rank]
  simp only [Gap.between?, hprevious.lastSignificant, hnext.firstSignificant, Option.bind_eq_bind,
    Option.bind_some, hc.clean.betweenTokens?_eq hprevious.last_word hnext.first_word, hiff]

/-- A label of a section is found by its span, and from it the section and the one before it. -/
theorem Neighbours.gapBefore? (h : Neighbours s previous next) (hc : c.Sound)
    (hs : s ∈ c.root.subtree) (hrank : next.rank = previous.rank + previous.weight) {label : Site}
    (hlabel : label ∈ next.labels) {d : Diagnostic} (hspan : d.span = label.span) :
    SectionSpacing.gapBefore? c d = gap? previous next := by
  obtain ⟨hchild, hkind⟩ := List.mem_filter.1 hlabel
  obtain ⟨hchild, hnode⟩ := List.mem_filter.1 hchild
  have hmem : label ∈ c.root.subtree := mem_subtree_child (mem_subtree_child hs h.mem.2) hchild
  have hkind : label.kind = .caseSwitchLabel ∨ label.kind = .defaultSwitchLabel := by
    simpa using hkind
  obtain ⟨text, hcolon⟩ : ∃ text, .token .colon text ∈ label.tree.children := by
    have hshaped : label.tree.EveryNode Parse.Shaped :=
      everyNode_of_mem.1 _ _ _ _ hc.shaped label hmem
    obtain ⟨tree, start, above, origin⟩ := label
    cases tree with
    | token k text => cases hnode
    | node k cs =>
        rcases hkind with hkind | hkind
        · obtain rfl : k = .caseSwitchLabel := hkind
          exact hshaped.1
        · obtain rfl : k = .defaultSwitchLabel := hkind
          exact hshaped.1
  have hwidth : 0 < (Tree.token .colon text).width := by
    rw [← map_tree_children] at hcolon
    obtain ⟨colon, hcolonChild, htree⟩ := List.mem_map.1 hcolon
    have htoken : colon ∈ c.root.subtokens :=
      List.mem_filter.2 ⟨mem_subtree_child hmem hcolonChild, by rw [Site.isToken, htree]; rfl⟩
    have hne : colon.kind ≠ .endOfFile := by
      simp [Site.kind, htree, Tree.kind]
    have hsolid := (hc.clean.solid colon htoken).resolve_right hne
    rw [stop_eq, htree] at hsolid
    omega
  have hfound : c.nodeAt? label.span = some label :=
    findNode?_span hmem hnode hcolon rfl hwidth .following
  have hnot : (label.kind == .switchSection) = false := by
    rcases hkind with hkind | hkind <;> rw [hkind] <;> rfl
  have hancestors : label.ancestors = label :: next :: next.properAncestors :=
    ancestors_of_parent? (parent?_of_mem_children hchild)
  have hprevious : (some previous).filter (fun n => n.kind == .switchSection) = some previous := by
    rw [Option.filter_some, h.previous_kind]
    rfl
  simp [SectionSpacing.gapBefore?, hspan, hfound, hancestors, hnot, h.next_kind,
    h.prevNode? hc hs hrank, hprevious]

/-- What is found at a label. -/
def finding (span : Span) (message action : String) : Finding where
  descriptor := descriptor
  span := span
  arguments := [message]
  properties := Properties.insert {} blankLine action

/-- A blank line that is missing is added. -/
theorem mends_add (hc : c.Sound) {last : Site} (hlast : last ∈ c.root.words) {span : Span}
    (hbefore : ∀ d : Diagnostic, d.span = span → gapBefore? c d = some last.gapAfter) {offset : Nat}
    (hoffset : last.gapAfter.blankLineInsertion? = some offset) :
    lineRule.Mends c (finding span "Add" "add")
      (.insert offset ⟨[Snippet.newline last.gapAfter.lineBreakText], []⟩) := by
  refine ⟨rfl, fun severity => ⟨"Add blank line", ?_⟩⟩
  have hinsert := Document.insertAt_lineBreak (d := c.document) hc.clean hlast hoffset
    ⟨[Snippet.newline last.gapAfter.lineBreakText], []⟩
  have hgap := hbefore ((finding span "Add" "add").diagnostic c severity) rfl
  have hget : ((finding span "Add" "add").diagnostic c severity).properties.get? blankLine =
      some "add" := rfl
  simp only [lineRule, fix, hgap, hget, hoffset, Context.editor, hinsert]
  rfl

/-- Blank lines that are too many are removed. -/
theorem mends_remove (hc : c.Sound) {last : Site} (hlast : last ∈ c.root.words) {span : Span}
    (hbefore : ∀ d : Diagnostic, d.span = span → gapBefore? c d = some last.gapAfter) {lines : Span}
    (hlines : last.gapAfter.blankLines? = some lines) :
    lineRule.Mends c (finding span "Remove" "remove") (.delete lines) := by
  refine ⟨rfl, fun severity => ⟨"Remove blank line", ?_⟩⟩
  have hdelete := Document.deleteSpan_blankLines (d := c.document) hc.clean hlast hlines
  have hgap := hbefore ((finding span "Remove" "remove").diagnostic c severity) rfl
  have hget : ((finding span "Remove" "remove").diagnostic c severity).properties.get? blankLine =
      some "remove" := rfl
  simp only [lineRule, fix, hgap, hget, hlines, Context.editor, hdelete]
  rfl

/-- What is found before a label is mended by the splice that settles the gap there. -/
theorem mends_gap (hc : c.Sound) {last label : Site} (hlast : last ∈ c.root.words)
    (hgap : gap? previous next =
      if last.gapAfter.isFixable && last.gapAfter.kind != .noNewLine then some last.gapAfter
      else none)
    (hlabel : next.labels.head? = some label)
    (hbefore : ∀ d : Diagnostic, d.span = label.span → gapBefore? c d = gap? previous next)
    (style : SectionStyle) :
    List.Forall₂ (lineRule.Mends c) (between style previous next)
      (last.gapAfter.settle? (style.wantsBlankLine previous)).toList := by
  rw [hgap] at hbefore
  unfold between
  rw [hgap, hlabel]
  cases hkind : last.gapAfter.kind with
  | noNewLine => simp [Gap.settle?, hkind, GapKind.isUnmet]
  | commentBearing => simp [Gap.settle?, Gap.isFixable, hkind, GapKind.isUnmet]
  | singleNewLine =>
      cases hwant : style.wantsBlankLine previous with
      | false => simp [Gap.settle?, Gap.isFixable, hkind, GapKind.isUnmet]
      | true =>
          obtain ⟨_, line, _, -, -, -, -, hbreaks⟩ := exists_break hkind
          have hoffset : last.gapAfter.blankLineInsertion? = some line.stop := by
            simp [Gap.blankLineInsertion?, hkind, hbreaks]
          have hmend := mends_add hc hlast
            (fun d (hspan : d.span = label.span) => by
              rw [hbefore d hspan]
              simp [Gap.isFixable, hkind]) hoffset
          simpa [Gap.settle?, Gap.isFixable, hkind, GapKind.isUnmet, hoffset, finding] using hmend
  | blankLine =>
      cases hwant : style.wantsBlankLine previous with
      | true => simp [Gap.settle?, Gap.isFixable, hkind, GapKind.isUnmet]
      | false =>
          obtain ⟨_, line, _, final, _, -, -, -, -, -, hhead, hfinal⟩ := exists_blank hkind
          have hlines : last.gapAfter.blankLines? = some ⟨line.stop, final.stop⟩ := by
            simp [Gap.blankLines?, hkind, hhead, hfinal]
          have hmend := mends_remove hc hlast
            (fun d (hspan : d.span = label.span) => by
              rw [hbefore d hspan]
              simp [Gap.isFixable, hkind]) hlines
          simpa [Gap.settle?, Gap.isFixable, hkind, GapKind.isUnmet, hlines, finding] using hmend

/-- What is found between two sections is mended by the splices for what is demanded there. -/
theorem Neighbours.mends (h : Neighbours s previous next) (hc : c.Sound)
    (hs : s ∈ c.root.subtree) (style : SectionStyle) :
    List.Forall₂ (lineRule.Mends c) (between style previous next)
      (settleAll (demand style previous next)) := by
  obtain ⟨⟨first, last, hprevious⟩, first', last', hnext⟩ := h.exists_ends hc hs
  have hbetween := between?_eq hc hprevious hnext
  by_cases hrank : next.rank = previous.rank + previous.weight
  · rw [if_pos hrank] at hbetween
    cases hlabel : next.labels.head? with
    | none =>
        have hnone : between style previous next = [] := by
          unfold between
          rw [hlabel]
          split
          · next hsome => cases hsome
          · rfl
        rw [hnone, demand, if_neg (by simp [hlabel])]
        exact .nil
    | some label =>
        have hdemand : settleAll (demand style previous next) =
            (last.gapAfter.settle? (style.wantsBlankLine previous)).toList := by
          rw [demand, if_pos ⟨hrank, by rw [hlabel]; rfl⟩, hprevious.lastSignificant]
          simp [settleAll]
        rw [hdemand]
        exact mends_gap hc hprevious.last_word (by rw [gap?, hbetween, Option.filter_some]) hlabel
          (fun d hspan => h.gapBefore? hc hs hrank (List.mem_of_head? hlabel) hspan) style
  · rw [if_neg hrank] at hbetween
    have hnone : between style previous next = [] := by
      simp [between, gap?, hbetween]
    rw [hnone, demand, if_neg fun hand => hrank hand.1]
    exact .nil

theorem own_eq (o : Options) (s : Site) :
    own o s = (s.sections.zip (s.sections.drop 1)).flatMap fun p => demand (style o) p.1 p.2 := by
  rw [own, ← List.map_uncurry_zip_eq_zipWith]
  rfl

/-- Each finding at a switch is mended by the splice that settles its gap. -/
theorem own_mends (hc : c.Sound) (hs : s ∈ c.root.subtree) :
    List.Forall₂ (lineRule.Mends c) (findings c s) (settleAll (own c.options s)) := by
  have hfindings : findings c s = (s.sections.zip (s.sections.drop 1)).flatMap
      fun p => between (style c.options) p.1 p.2 := by
    rw [findings, ← List.map_uncurry_zip_eq_zipWith]
    rfl
  rw [hfindings, own_eq, settleAll, List.flatMap_assoc]
  refine List.rel_flatten ?_
  rw [List.forall₂_map_left_iff, List.forall₂_map_right_iff, List.forall₂_same]
  exact fun p hp => (neighbours_of_mem_zip hp).mends hc hs _

/-- What is demanded is demanded behind a section that another one follows. -/
theorem mem_demand (hc : c.Sound) (hs : s ∈ c.root.subtree) (h : Neighbours s previous next)
    {style : SectionStyle} {d : Demand} (hd : d ∈ demand style previous next) :
    d.1 ∈ c.root.words ∧ d.1.rank + 1 = previous.rank + previous.weight ∧
      next.rank = previous.rank + previous.weight ∧ d.2 = style.wantsBlankLine previous ∧
      0 < previous.weight ∧ 0 < next.weight := by
  obtain ⟨⟨first, last, hprevious⟩, first', last', hnext⟩ := h.exists_ends hc hs
  unfold demand at hd
  split at hd
  · next hand =>
    rw [hprevious.lastSignificant] at hd
    obtain rfl : d = (last, style.wantsBlankLine previous) := by simpa using hd
    exact ⟨hprevious.last_word, hprevious.last_rank, hand.1, rfl, hprevious.weight_pos,
      hnext.weight_pos⟩
  · cases hd

theorem mem_own {d : Demand} (hd : d ∈ own c.options s) :
    ∃ previous next, Neighbours s previous next ∧ d ∈ demand (style c.options) previous next := by
  rw [own_eq] at hd
  obtain ⟨p, hp, hd⟩ := List.mem_flatMap.1 hd
  exact ⟨p.1, p.2, neighbours_of_mem_zip hp, hd⟩

/-- What holds of any two of a list holds of pairs that start with them. -/
theorem pairwise_zip {α β : Type} {R : α → α → Prop} {l : List α} (h : l.Pairwise R)
    (l' : List β) : (l.zip l').Pairwise (fun p q => R p.1 q.1) := by
  induction h generalizing l' with
  | nil => exact List.Pairwise.nil
  | cons hfirst _ ih =>
      cases l' with
      | nil => exact List.Pairwise.nil
      | cons b l' =>
          exact List.pairwise_cons.2 ⟨fun q hq => hfirst q.1 (List.of_mem_zip hq).1, ih l'⟩

/-- The gap behind a section lies in no child. -/
theorem own_proper (hc : c.Sound) (hs : s ∈ c.root.subtree) : Proper (own c.options) s where
  distinct := by
    rw [own_eq, Distinct, List.pairwise_flatMap]
    constructor
    · rintro ⟨previous, next⟩ -
      unfold demand
      split
      · cases previous.lastSignificant? with
        | none => exact List.Pairwise.nil
        | some last => exact List.pairwise_singleton _ _
      · exact List.Pairwise.nil
    · have hsections : s.sections.Pairwise (fun a b => a.rank + a.weight ≤ b.rank) :=
        ((children_ranked s).filter _).filter _
      refine (pairwise_zip hsections _).imp_of_mem fun {p q} hp hq hle d hd e he => ?_
      obtain ⟨-, hdrank, -⟩ := mem_demand hc hs (neighbours_of_mem_zip hp) hd
      obtain ⟨-, herank, -, -, hpos, -⟩ := mem_demand hc hs (neighbours_of_mem_zip hq) he
      omega
  inside := by
    intro d hd
    obtain ⟨previous, next, h, hd⟩ := mem_own hd
    obtain ⟨-, hrank, hnext, -, hpos, hpos'⟩ := mem_demand hc hs h hd
    have hwithin := rank_of_mem_children h.mem.1
    have hwithin' := rank_of_mem_children h.mem.2
    unfold Inside
    omega
  between := by
    intro d hd child hchild hinside
    obtain ⟨previous, next, h, hd⟩ := mem_own hd
    obtain ⟨-, hrank, -⟩ := mem_demand hc hs h hd
    unfold Inside at hinside
    rcases children_apart h.mem.1 hchild with rfl | hapart
    · omega
    · omega

/-! ### Counterparts -/

theorem weight_eq_of_shade {s s' : Site} (hs : s.isNode = true) (hs' : s'.isNode = true)
    (h : s.shade = s'.shade) : s.weight = s'.weight :=
  weight_of_bare_eq hs hs' (congrArg Prod.snd h)

/-- Child nodes that are told apart by their kind have counterparts. -/
theorem map_shade_nodes {s s' : Site} (h : s.shade = s'.shade) (p : Kind → Bool) :
    (s.nodes.filter (fun n => p n.kind)).map shade =
      (s'.nodes.filter (fun n => p n.kind)).map shade := by
  rw [nodes, nodes, List.filter_filter, List.filter_filter]
  refine map_shade_filter h (g := fun t => p t.kind && t.isNode) (fun r hr => ?_) fun r => ?_
  · have hnode : r.tree.isNode = true := (Bool.and_eq_true_iff.1 hr).2
    rw [isSignificant, Site.isTrivia]
    cases htree : r.tree with
    | token k text =>
        rw [htree] at hnode
        cases hnode
    | node k cs => rfl
  · rw [Site.kind, Site.isNode, kind_bare, Tree.isNode, Tree.isNode, isToken_bare]

/-- Whether a blank line is wanted behind a section does not depend on trivia. -/
theorem wantsBlankLine_eq {s s' : Site} (h : s.shade = s'.shade) (style : SectionStyle) :
    style.wantsBlankLine s = style.wantsBlankLine s' := by
  have hlast : (s.statements.getLast?).map shade = (s'.statements.getLast?).map shade := by
    rw [← List.getLast?_map, ← List.getLast?_map, statements, statements,
      map_shade_nodes h Kind.isStatement]
  have hkind (r : Site) : r.kind = r.shade.2.kind := (kind_bare r.tree).symm
  have hany (s : Site) : s.statements.getLast?.any (fun n => n.kind == .block) =
      (s.statements.getLast?.map shade).any (fun n => n.2.kind == .block) := by
    cases s.statements.getLast? with
    | none => rfl
    | some r => simp [hkind r]
  unfold SectionStyle.wantsBlankLine
  rw [hany, hany, hlast]

/-- Sections that follow each other have counterparts that do. -/
theorem own_stable {c' : Context} {s' : Site} (hc : c.Sound) (hc' : c'.Sound)
    (hoptions : c.options = c'.options) (hs : s ∈ c.root.subtree) (hs' : s' ∈ c'.root.subtree)
    (hshade : s.shade = s'.shade) {d' : Demand} (hd' : d' ∈ own c'.options s') :
    ∃ d ∈ own c.options s, d.1.rank = d'.1.rank ∧ d.2 = d'.2 := by
  have hsections : s.sections.map shade = s'.sections.map shade :=
    map_shade_nodes hshade (· == .switchSection)
  have hpairs : (s.sections.zip (s.sections.drop 1)).map (Prod.map shade shade) =
      (s'.sections.zip (s'.sections.drop 1)).map (Prod.map shade shade) := by
    rw [← List.zip_map, ← List.zip_map, List.map_drop, List.map_drop, hsections]
  rw [own_eq] at hd' ⊢
  obtain ⟨⟨previous', next'⟩, hp', hd'⟩ := List.mem_flatMap.1 hd'
  have hmem : Prod.map shade shade (previous', next') ∈
      (s.sections.zip (s.sections.drop 1)).map (Prod.map shade shade) :=
    hpairs ▸ List.mem_map_of_mem hp'
  obtain ⟨⟨previous, next⟩, hp, heq⟩ := List.mem_map.1 hmem
  obtain ⟨hprevious, hnext⟩ := Prod.mk.inj heq
  have h := neighbours_of_mem_zip hp
  have h' := neighbours_of_mem_zip hp'
  obtain ⟨-, hdrank, hfollows, hwant, -⟩ := mem_demand hc' hs' h' hd'
  have hweight := weight_eq_of_shade h.previous_node h'.previous_node hprevious
  have hprank : previous.rank = previous'.rank := congrArg Prod.fst hprevious
  have hnrank : next.rank = next'.rank := congrArg Prod.fst hnext
  have hlabels : next.labels.head?.isSome = next'.labels.head?.isSome := by
    have hlabels := map_shade_nodes hnext
      (fun k => k == .caseSwitchLabel || k == .defaultSwitchLabel)
    have hhead := congrArg (fun l => (List.head? l).isSome) hlabels
    simp only [List.head?_map, Option.isSome_map] at hhead
    exact hhead
  have hlabelled : next'.labels.head?.isSome = true := by
    unfold demand at hd'
    split at hd'
    · next hand => exact hand.2
    · cases hd'
  obtain ⟨⟨first, last, hends⟩, -⟩ := h.exists_ends hc hs
  have hlast := hends.last_rank
  refine ⟨(last, (style c.options).wantsBlankLine previous), List.mem_flatMap.2 ⟨_, hp, ?_⟩,
    (by omega : last.rank = d'.1.rank), ?_⟩
  · have hfollows' : next.rank = previous.rank + previous.weight := by omega
    rw [demand, if_pos ⟨hfollows', hlabels.trans hlabelled⟩, hends.lastSignificant]
    exact List.mem_singleton_self _
  · show (style c.options).wantsBlankLine previous = d'.2
    rw [hwant, hoptions, wantsBlankLine_eq hprevious]

/-- **The rule about blank lines between switch sections is sound.** -/
theorem sound : lineRule.Sound where
  kinds_nodup := by decide
  proper _ hc _ hs _ := own_proper hc hs
  words _ hc _ hs _ d hd := by
    obtain ⟨previous, next, h, hd⟩ := mem_own hd
    exact (mem_demand hc hs h hd).1
  mends _ hc _ hs _ := own_mends hc hs
  stable _ _ hc hc' hoptions _ hs _ hs' _ hshade _ hd' :=
    own_stable hc hc' hoptions hs hs' hshade hd'

end Rules.SectionSpacing

end CodeMend
