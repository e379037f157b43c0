import CodeMend.Proofs.Edit.Reindenting

/-!
# The formatter has nothing to do twice

What the formatter asks about the first token of a line — its depth, the node that it begins, the
next word behind a comment — is answered by going up and along the tree, and the answer is the same
in the tight tree (`aim_tight`).  A run leaves the tight tree as it is, so a second run aims at the
same columns.  It finds them: `Settled` says so of one line, and then no line that begins a node has
moved, so lines that continue one stay too (`splices_of_settled`).
-/

namespace CodeMend

open Tree

namespace Site

variable {s p q a b : Site}

/-! ## One site, seen twice -/

/-- A site met on the way up has fewer frames than the way has. -/
theorem length_of_mem_climb {origin : Nat} {t : Tree} {above : List Frame}
    (h : p ∈ climb origin t above) : p.above.length < above.length := by
  induction above generalizing t with
  | nil => cases h
  | cons f fs ih =>
      rcases List.mem_cons.1 h with rfl | h
      · exact Nat.lt_succ_self _
      · exact Nat.lt_succ_of_lt (ih h)

/-- Of the sites above each other each has its own number of frames. -/
theorem ancestors_lengths (s : Site) :
    s.ancestors.Pairwise (fun p q => q.above.length < p.above.length) := by
  obtain ⟨tree, start, above, origin⟩ := s
  induction above generalizing tree start with
  | nil => exact List.pairwise_singleton _ _
  | cons f fs ih =>
      refine List.pairwise_cons.2 ⟨fun q hq => ?_, ih (Frame.close f tree) f.start⟩
      exact length_of_mem_climb hq

/-- Of two ancestors of a site, the same one is told by its depth, even where nodes have the
same text. -/
theorem same_iff_length (hp : p ∈ s.ancestors) (hq : q ∈ s.ancestors) :
    p.same q = true ↔ p.above.length = q.above.length := by
  constructor
  · intro hsame
    have hpath : p.path = q.path := by
      simp only [same, Bool.and_eq_true, beq_iff_eq] at hsame
      exact hsame.2
    simpa [path] using congrArg List.length hpath
  · intro hlength
    by_cases hne : p = q
    · rw [hne]
      exact same_self q
    · let Apart (p q : Site) := p.above.length ≠ q.above.length
      have : Std.Symm Apart := ⟨fun _ _ => Ne.symm⟩
      have hpairs : s.ancestors.Pairwise Apart :=
        (ancestors_lengths s).imp fun {p q} h => Ne.symm (Nat.ne_of_lt h)
      exact absurd hlength (hpairs.forall hp hq hne)

/-- A site and its ancestors have their places in the tight tree. -/
theorem tight_ancestors (h : s.isSpace = false) : s.tight.ancestors = s.ancestors.map tight := by
  rw [ancestors, ancestors, tight_properAncestors h, List.map_cons]

/-- Ancestors of a site are the same in both trees or in neither. -/
theorem same_tight_above (h : s.isSpace = false) (hp : p ∈ s.ancestors) (hq : q ∈ s.ancestors) :
    p.tight.same q.tight = p.same q := by
  have hp' : p.tight ∈ s.tight.ancestors := tight_ancestors h ▸ List.mem_map_of_mem hp
  have hq' : q.tight ∈ s.tight.ancestors := tight_ancestors h ▸ List.mem_map_of_mem hq
  rw [Bool.eq_iff_iff, same_iff_length hp' hq', same_iff_length hp hq]
  show (tightFrames p.above).length = (tightFrames q.above).length ↔ _
  rw [length_tightFrames, length_tightFrames]

/-! ## Offsets compared -/

section Firm

variable {t : Tree} {origin : Nat}

/-- Which of two shared tokens starts first is the same in the tight tree. -/
theorem start_lt_start_tight (h : t.Regular) (ha : a ∈ (top origin t).firm)
    (hb : b ∈ (top origin t).firm) : a.tight.start < b.tight.start ↔ a.start < b.start := by
  rcases firm_cases h ha hb with rfl | ⟨⟨hab, hab'⟩, ⟨htab, htab'⟩⟩ | ⟨⟨hba, hba'⟩, ⟨htba, htba'⟩⟩
  · omega
  · omega
  · omega

/-- A token other than the end of the file has text. -/
theorem solid_of_firm (h : t.Regular) (ha : a ∈ (top origin t).firm) (hkind : a.kind ≠ .endOfFile) :
    a.start < a.stop ∧ a.tight.start < a.tight.stop := by
  obtain ⟨hmem, -⟩ := mem_firm.1 ha
  have htoken : a.isToken = true := (List.mem_filter.1 hmem).2
  obtain ⟨body, htokens, hsolid⟩ := h.ends
  have hstored : a.stored ∈ body ++ [(.endOfFile, "")] := by
    rw [← htokens, ← show (top origin t).subtokens.map stored = t.tokens from map_stored_subtokens _]
    exact List.mem_map_of_mem hmem
  have htext : a.stored.2 ≠ "" := by
    rcases List.mem_append.1 hstored with hbody | hend
    · exact hsolid _ hbody
    · exact absurd (congrArg Prod.fst (List.mem_singleton.1 hend)) hkind
  have htight : a.tight.stored = a.stored := by
    show (a.tight.kind, a.tree.tight.text) = _
    rw [tight_kind, tight_of_isToken htoken]
    rfl
  exact ⟨start_lt_stop htoken htext,
    start_lt_stop (by rw [tight_isToken]; exact htoken) (by rw [htight]; exact htext)⟩

/-- Whether one token starts before another ends is the same in the tight tree, unless that
other is the end of the file. -/
theorem start_lt_stop_tight (h : t.Regular) (ha : a ∈ (top origin t).firm)
    (hb : b ∈ (top origin t).firm) (hkind : a.kind ≠ .endOfFile) :
    b.tight.start < a.tight.stop ↔ b.start < a.stop := by
  obtain ⟨hpos, hpos'⟩ := solid_of_firm h ha hkind
  rcases firm_cases h ha hb with rfl | ⟨⟨hab, hab'⟩, ⟨htab, htab'⟩⟩ | ⟨⟨hba, hba'⟩, ⟨htba, htba'⟩⟩
  · exact iff_of_true hpos' hpos
  · omega
  · omega

/-- Two shared tokens are the same in both trees or in neither. -/
theorem same_tight_firm (h : t.Regular) (ha : a ∈ (top origin t).firm)
    (hb : b ∈ (top origin t).firm) : a.tight.same b.tight = a.same b := by
  have hne {a b : Site} (hstart : a.start ≠ b.start) : a.same b = false := by simp [same, hstart]
  rcases firm_cases h ha hb with rfl | ⟨⟨hab, hab'⟩, ⟨htab, htab'⟩⟩ | ⟨⟨hba, hba'⟩, ⟨htba, htba'⟩⟩
  · rw [same_self, same_self]
  · rw [hne (by omega), hne (by omega)]
  · rw [hne (by omega), hne (by omega)]

end Firm

/-! ## Children -/

/-- White space is known by its kind. -/
theorem kind_of_isSpace (h : s.isSpace = true) : s.kind = .whitespace := by
  obtain ⟨tree, start, above, origin⟩ := s
  cases tree with
  | token k text => exact (show Kind.whitespace = k by simpa [isSpace, Tree.isSpace, isTokenOf] using h).symm
  | node k cs => cases h

/-- The tokens right below a site, white space aside. -/
theorem tight_tokens (s : Site) : s.tight.tokens = (s.tokens.filter (!·.isSpace)).map tight := by
  rw [tokens, tight_children, filter_tight tight_isToken]
  rfl

/-- A site of another kind is no white space. -/
theorem not_space_of_kind {k : Kind} (hk : k ≠ .whitespace) (r : Site) (h : (r.kind == k) = true) :
    r.isSpace = false := by
  refine Bool.eq_false_iff.2 fun hspace => hk ?_
  rw [← beq_iff_eq.1 h, kind_of_isSpace hspace]

/-- The first token of a kind right below a site. -/
theorem tight_token? (s : Site) {k : Kind} (hk : k ≠ .whitespace) :
    s.tight.token? k = (s.token? k).map tight := by
  rw [token?, tight_tokens]
  exact find_tight (fun r => by rw [tight_kind]) (not_space_of_kind hk) s.tokens

/-- The last token of a kind right below a site. -/
theorem tight_lastTokenOf? (s : Site) {k : Kind} (hk : k ≠ .whitespace) :
    s.tight.lastTokenOf? k = (s.lastTokenOf? k).map tight := by
  rw [lastTokenOf?, tight_tokens,
    filter_tight_of (fun r => by rw [tight_kind]) (not_space_of_kind hk), List.getLast?_map]
  rfl

end Site

namespace Indent

open Site

/-! ## What the formatter sees of a token -/

section Seen

variable {t : Tree} {origin : Nat} {s node : Site}

/-- A token right below a node is shared if it is no white space. -/
theorem mem_firm_of_child (hnode : node ∈ (top origin t).subtree) {c : Site} (hc : c ∈ node.tokens)
    (hkind : c.kind ≠ .whitespace) : c ∈ (top origin t).firm := by
  obtain ⟨hchild, htoken⟩ := List.mem_filter.1 hc
  refine mem_firm.2 ⟨List.mem_filter.2 ⟨mem_subtree_child hnode hchild, htoken⟩, ?_⟩
  exact Bool.eq_false_iff.2 fun hspace => hkind (kind_of_isSpace hspace)

/-- Whether a token is inside the braces of a node depends on the order of three shared tokens.
-/
theorem insideBraces_tight (h : t.Regular) (hs : s ∈ (top origin t).firm)
    (hnode : node ∈ (top origin t).subtree) :
    insideBraces node.tight s.tight = insideBraces node s := by
  rw [insideBraces, insideBraces, openBrace?, openBrace?, closeBrace?, closeBrace?,
    tight_token? node (by decide), tight_lastTokenOf? node (by decide)]
  cases hopen : node.token? .lBrace with
  | none => rfl
  | some opening =>
      have hopening : opening.kind = .lBrace := by simpa using List.find?_some hopen
      have hopen := mem_firm_of_child hnode (List.mem_of_find?_eq_some hopen) (by rw [hopening]; decide)
      have hstop := start_lt_stop_tight h hopen hs (by rw [hopening]; decide)
      simp only [Option.map_some, hstop]
      cases hclose : node.lastTokenOf? .rBrace with
      | none => rfl
      | some closing =>
          obtain ⟨hmem, hclosing⟩ := List.mem_filter.1 (List.mem_of_getLast? hclose)
          have hclosing : closing.kind = .rBrace := beq_iff_eq.1 hclosing
          have hclose := mem_firm_of_child hnode hmem (by rw [hclosing]; decide)
          have hbetween := start_lt_start_tight h hopen hclose
          have hbefore := start_lt_start_tight h hs hclose
          simp only [Option.map_some, hbetween, hbefore]

/-- A shared token is in the tree. -/
theorem mem_subtree_of_firm (hs : s ∈ (top origin t).firm) : s ∈ (top origin t).subtree :=
  (List.mem_filter.1 (mem_firm.1 hs).1).1

/-- The levels that a node adds to the depth of a token: its braces, its labels and the
statement that it holds are found in the tight tree alike. -/
theorem levels_tight (h : t.Regular) (hs : s ∈ (top origin t).firm) (hnode : node ∈ s.properAncestors) :
    levels s.tight node.tight = levels s node := by
  have hspace := (mem_firm.1 hs).2
  have hparent {n : Site} (hn : n ∈ s.properAncestors) : n.tight.parent? = n.parent?.map Site.tight :=
    tight_parent? (isSpace_of_isNode (isNode_of_mem_properAncestors hn))
  have hbraces := insideBraces_tight h hs
    (ancestors_mem (mem_subtree_of_firm hs) (List.mem_cons_of_mem s hnode))
  have hlabel : (s.tight.properAncestors.any fun n =>
      isLabel n && n.parent?.any (·.same node.tight)) =
      s.properAncestors.any fun n => isLabel n && n.parent?.any (·.same node) := by
    rw [tight_properAncestors hspace, List.any_map]
    rw [Bool.eq_iff_iff, List.any_eq_true, List.any_eq_true]
    refine exists_congr fun n => and_congr_right fun hn => ?_
    have hkind : isLabel n.tight = isLabel n := by simp [isLabel]
    rw [Function.comp_apply, hparent hn, hkind]
    cases hup : n.parent? with
    | none => rfl
    | some p =>
        have hp : p ∈ s.ancestors :=
          (ancestors_suffix (List.mem_cons_of_mem s hn)).subset (parent_mem_ancestors hup)
        rw [Option.map_some, Option.any_some, Option.any_some,
          same_tight_above hspace hp (List.mem_cons_of_mem s hnode)]
  have hembedded : (node.tight.parent?.any fun p =>
      isEmbedding p.kind && !(node.kind == .ifStatement && p.kind == .elseClause)) =
      node.parent?.any fun p =>
        isEmbedding p.kind && !(node.kind == .ifStatement && p.kind == .elseClause) := by
    rw [hparent hnode]
    cases node.parent? with
    | none => rfl
    | some p => simp
  unfold levels
  simp only [tight_kind, hbraces, hlabel, hembedded]

/-- The depth of a token adds up the levels of the same nodes in both trees. -/
theorem depth_tight (h : t.Regular) (hs : s ∈ (top origin t).firm) : depth s.tight = depth s := by
  rw [depth, depth, tight_properAncestors (mem_firm.1 hs).2, List.map_map]
  congr 1
  exact List.map_congr_left fun node hnode => levels_tight h hs hnode

/-- The node that begins with a token is found by going up from it. -/
theorem anchor?_tight (hs : s.isSpace = false) : anchor? s.tight = (anchor? s).map Site.tight := by
  rw [anchor?, anchor?, tight_properAncestors hs, List.find?_map]
  congr 2
  exact funext fun r => by simp

/-- The node that begins on a line of its own is not the root. -/
theorem fresh_of_anchor (h : t.Regular) (hroot : t.kind = .compilationUnit)
    (hnode : node ∈ (top origin t).subtree) (hanchor : isAnchor node.kind = true) :
    node.tree.EveryNode FreshNode := by
  obtain ⟨k, cs, rfl, hfresh⟩ := h.fresh
  rcases List.mem_cons.1 (show node ∈ _ :: subtreesOf origin k 0 [] 0 [] cs from hnode) with rfl | hmem
  · have hroot : k = .compilationUnit := hroot
    have hanchor : isAnchor k = true := hanchor
    rw [hroot] at hanchor
    cases hanchor
  · exact everyNode_of_mem.2 cs _ _ _ _ _ _ hfresh node hmem

/-- Whether that node begins on a line of its own is asked of its parent and of its own first
token. -/
theorem begins_tight (h : t.Regular) (hroot : t.kind = .compilationUnit)
    (hs : s ∈ (top origin t).firm) (hanchor : anchor? s = some node) :
    begins s.tight node.tight = begins s node := by
  have hmem := List.mem_of_find?_eq_some hanchor
  have hsub := ancestors_mem (mem_subtree_of_firm hs) (List.mem_cons_of_mem s hmem)
  have hnode := isNode_of_mem_properAncestors hmem
  have hkind : isAnchor node.kind = true := by simpa using List.find?_some hanchor
  have hfresh := fresh_of_anchor h hroot hsub hkind
  have hfresh' : node.tight.tree.EveryNode FreshNode := (everyNode_tight freshNode_tight).1 _ hfresh
  rw [begins, begins, firstSignificant?_eq hnode hfresh,
    firstSignificant?_eq (by rw [tight_isNode]; exact hnode) hfresh', tight_firstToken? hnode hfresh]
  cases hfirst : node.firstToken? with
  | none => rfl
  | some first =>
      obtain ⟨hhead, htoken⟩ := Option.filter_eq_some_iff.1 hfirst
      have htrivia := isTrivia_of_head_leaves hnode hfresh hhead
      have hleaf : first ∈ node.subtree :=
        (List.mem_filter.1 (List.mem_of_head? hhead)).1
      have hfirm : first ∈ (top origin t).firm := by
        refine mem_firm.2 ⟨List.mem_filter.2 ⟨?_, htoken⟩,
          isSpace_of_isSignificant (by simp [isSignificant, htrivia])⟩
        exact subtree_trans.1 t origin 0 [] node hsub first hleaf
      rw [Option.map_some, Option.any_some, Option.any_some, same_tight_firm h hfirm hs]

/-- A line is structural in both trees or in neither. -/
theorem isStructural_tight (h : t.Regular) (hroot : t.kind = .compilationUnit)
    (hs : s ∈ (top origin t).firm) :
    isStructural s.tight (anchor? s.tight) = isStructural s (anchor? s) := by
  rw [isStructural, isStructural, anchor?_tight (mem_firm.1 hs).2, tight_kind]
  congr 1
  cases hanchor : anchor? s with
  | none => rfl
  | some node => rw [Option.map_some, Option.any_some, Option.any_some, begins_tight h hroot hs hanchor]

/-- A shared token is a leaf. -/
theorem mem_leaves_of_firm (hs : s ∈ (top origin t).firm) : s ∈ (top origin t).leaves := by
  obtain ⟨hmem, htoken⟩ := List.mem_filter.1 (mem_firm.1 hs).1
  refine List.mem_filter.2 ⟨hmem, ?_⟩
  rw [isLeaf, tree_of_isToken htoken]
  rfl

/-- The next word behind a shared token is shared. -/
theorem mem_firm_of_nextSignificant? (hs : s ∈ (top origin t).firm) {next : Site}
    (hnext : s.nextSignificant? = some next) : next ∈ (top origin t).firm := by
  obtain ⟨left, right, hsplit⟩ := List.append_of_mem (mem_leaves_of_firm hs)
  have hafter : next ∈ s.tokensAfter := List.mem_of_find?_eq_some hnext
  have hfollowing := (List.takeWhile_subset _) hafter
  rw [(walk_eq hsplit).2.2] at hfollowing
  have hmem : next ∈ (top origin t).leaves := by rw [hsplit]; simp [hfollowing]
  exact mem_firm.2 ⟨List.mem_filter.2 ⟨(List.mem_filter.1 hmem).1, List.mem_takeWhile_imp hafter⟩,
    isSpace_of_isSignificant (List.find?_some hnext)⟩

end Seen

/-- The columns at which a line with the given first token is to start.  A line that continues a
statement has none of its own, and for a comment that nothing follows there are none. -/
def aim (f : FormatterSettings) (s : Site) : Option (Option UInt64) :=
  if s.kind.isComment then
    some (s.nextSignificant?.map fun next =>
      .ofNat (depth next + if next.kind == .rBrace then 1 else 0) * f.level)
  else if isStructural s (anchor? s) then some (some (.ofNat (depth s) * f.level))
  else none

/-- **Without white space the formatter sees the same.** -/
theorem aim_tight {t : Tree} {origin : Nat} {s : Site} (h : t.Regular)
    (hroot : t.kind = .compilationUnit) (hs : s ∈ (top origin t).firm) (f : FormatterSettings) :
    aim f s.tight = aim f s := by
  rw [aim, aim, tight_kind, isStructural_tight h hroot hs, depth_tight h hs,
    tight_nextSignificant? h (mem_leaves_of_firm hs) (mem_firm.1 hs).2]
  cases hnext : s.nextSignificant? with
  | none => rfl
  | some next =>
      simp only [Option.map_some, tight_kind, depth_tight h (mem_firm_of_nextSignificant? hs hnext)]

/-! ## Lines at their place -/

section Settled

variable {f : FormatterSettings} {moves : Moves} {l : Line}

/-- A line without an aim is left alone: a comment that nothing follows. -/
theorem target?_alone (h : aim f l.first = some none) : target? f moves l = none := by
  unfold aim at h
  unfold target?
  dsimp only
  split at h
  · next hcomment =>
    rw [if_pos hcomment, Option.map_eq_none_iff.1 (Option.some.inj h)]
    rfl
  · split at h
    · cases h
    · cases h

/-- A line with columns of its own is wanted at them, and the move it adds is the one from where
it is. -/
theorem target?_own {columns : UInt64} (h : aim f l.first = some (some columns)) :
    ∃ moves', target? f moves l = some (columns, moves') ∧
      ∀ m ∈ moves', m ∈ moves ∨
        m.2 = columns.toInt64 - (width f.level l.indentText).toInt64 := by
  unfold aim at h
  unfold target?
  dsimp only
  split at h
  · next hcomment =>
    rw [if_pos hcomment]
    obtain ⟨next, hnext, rfl⟩ := Option.map_eq_some_iff.1 (Option.some.inj h)
    exact ⟨moves, by rw [hnext]; rfl, fun m hm => Or.inl hm⟩
  · next hcomment =>
    rw [if_neg hcomment]
    split at h
    · next hstructural =>
      rw [if_pos hstructural]
      obtain rfl := Option.some.inj (Option.some.inj h)
      cases anchor? l.first with
      | none => exact ⟨moves, rfl, fun m hm => Or.inl hm⟩
      | some a =>
          dsimp only
          split
          · refine ⟨_, rfl, fun m hm => ?_⟩
            rcases List.mem_cons.1 hm with rfl | hm
            · exact Or.inr rfl
            · exact Or.inl hm
          · exact ⟨moves, rfl, fun m hm => Or.inl hm⟩
    · cases h

/-- A line that continues a statement is wanted where the first line of the statement has moved
it. -/
theorem target?_moved (h : aim f l.first = none) :
    target? f moves l = some (shift (width f.level l.indentText)
      (((anchor? l.first).bind fun a => moves.lookup a.start).getD 0), moves) := by
  unfold aim at h
  unfold target?
  dsimp only
  split at h
  · cases h
  · next hcomment =>
    split at h
    · cases h
    · next hstructural => rw [if_neg hcomment, if_neg hstructural]

/-- A line that has the white space it is to get; one that continues a statement has white space as
the settings ask for, of any width that does not count as negative.  Memory holds all of it. -/
def Settled (f : FormatterSettings) (l : Line) : Prop :=
  match aim f l.first with
  | some none => True
  | some (some columns) => l.indentText = render f columns ∧ Held f columns
  | none => ∃ columns, l.indentText = render f columns ∧ Held f columns ∧ ¬ columns.toInt64 < 0

/-- What a line gets in a first run, it has in a second. -/
theorem settled_of_given {spans : List Span} {l' : Line} (hspans : inSpans spans l = true)
    (haim : aim f l'.first = aim f l.first) (htext : l'.indentText = (given f spans moves l).1)
    (hheld : ∀ t ∈ wanted f spans moves l, Held f t.1) : Settled f l' := by
  rw [wanted, if_pos hspans] at hheld
  rw [given, wanted, if_pos hspans] at htext
  unfold Settled
  rw [haim]
  cases hl : aim f l.first with
  | none =>
      rw [target?_moved hl] at htext hheld
      exact ⟨_, htext, hheld _ rfl, shift_nonneg _ _⟩
  | some own =>
      cases own with
      | none => trivial
      | some columns =>
          obtain ⟨moves', htarget, -⟩ := @target?_own f moves l columns hl
          rw [htarget] at htext hheld
          exact ⟨htext, hheld _ rfl⟩

/-- Where nothing has moved, the latest move of an anchor is none. -/
theorem getD_lookup_eq_zero (hmoves : ∀ m ∈ moves, m.2 = 0) (anchor : Option Site) :
    (anchor.bind fun a => moves.lookup a.start).getD 0 = 0 := by
  cases anchor with
  | none => rfl
  | some a =>
      cases hlookup : moves.lookup a.start with
      | none => simp [hlookup]
      | some move =>
          obtain ⟨left, right, hsplit, -⟩ := List.lookup_eq_some_iff.1 hlookup
          have hzero := hmoves (a.start, move) (by rw [hsplit]; simp)
          simpa [hlookup] using hzero

/-- The step of the second run: what is wanted for the line is what it has, and nothing has moved. -/
theorem wanted_of_settled (hl : Settled f l) (hmoves : ∀ m ∈ moves, m.2 = 0) (spans : List Span) :
    ∀ t ∈ wanted f spans moves l,
      render f t.1 = l.indentText ∧ Held f t.1 ∧ ∀ m ∈ t.2, m.2 = 0 := by
  unfold Settled at hl
  intro t ht
  obtain ⟨-, ht⟩ : inSpans spans l = true ∧ target? f moves l = some t := by
    simpa [wanted] using ht
  cases haim : aim f l.first with
  | none =>
      rw [haim] at hl
      obtain ⟨columns, htext, hheld, hnonneg⟩ := hl
      rw [target?_moved haim, getD_lookup_eq_zero hmoves, htext, width_render,
        shift_zero hnonneg] at ht
      obtain rfl := Option.some.inj ht
      exact ⟨htext.symm, hheld, hmoves⟩
  | some own =>
      rw [haim] at hl
      cases own with
      | none =>
          rw [target?_alone haim] at ht
          cases ht
      | some columns =>
          obtain ⟨moves', htarget, hmoves'⟩ := @target?_own f moves l columns haim
          obtain ⟨htext, hheld⟩ : l.indentText = render f columns ∧ Held f columns := hl
          rw [htarget] at ht
          obtain rfl := Option.some.inj ht
          refine ⟨htext.symm, hheld, fun m hm => ?_⟩
          rcases hmoves' m hm with hm | hm
          · exact hmoves m hm
          · rw [hm, htext, width_render, Int64.sub_self]

/-- **Where all lines are at their place there is nothing to do**, and memory holds what there is. -/
theorem splices_of_settled {ls : List Line} (hls : ∀ l ∈ ls, Settled f l)
    (hmoves : ∀ m ∈ moves, m.2 = 0) (spans : List Span) :
    splices f spans moves ls = [] ∧ ∀ t ∈ targets f spans moves ls, Held f t.2 := by
  induction ls generalizing moves with
  | nil => exact ⟨rfl, fun t ht => absurd ht List.not_mem_nil⟩
  | cons l ls ih =>
      obtain ⟨hl, hls⟩ := List.forall_mem_cons.1 hls
      have hwanted := wanted_of_settled hl hmoves spans
      rw [splices_cons, targets_cons, given]
      cases hgiven : wanted f spans moves l with
      | none =>
          rw [splice?_indentText]
          exact ih hls hmoves
      | some t =>
          obtain ⟨htext, hheld, hmoves'⟩ := hwanted t hgiven
          obtain ⟨hnone, hheld'⟩ := ih hls hmoves'
          refine ⟨?_, fun u hu => ?_⟩
          · simp only [htext, splice?_indentText]
            exact hnone
          · rcases List.mem_cons.1 hu with rfl | hu
            · exact hheld
            · exact hheld' u hu

end Settled

end Indent

namespace Line

open Site

/-! ## The lines of the tight tree -/

/-- Tokens without white space, at their places in the tight tree. -/
def squeeze (l : List Site) : List Site := (l.filter (!·.isSpace)).map Site.tight

variable {l : List Site} {t : Site}

/-- White space is taken out of two rows one behind the other as out of each. -/
theorem squeeze_append (l r : List Site) : squeeze (l ++ r) = squeeze l ++ squeeze r := by
  simp [squeeze]

/-- A token that is no white space stays in front. -/
theorem squeeze_cons (h : t.isSpace = false) (l : List Site) :
    squeeze (t :: l) = t.tight :: squeeze l := by
  simp [squeeze, h]

/-- White space in front goes. -/
theorem squeeze_space (h : t.isSpace = true) (l : List Site) : squeeze (t :: l) = squeeze l := by
  simp [squeeze, h]

/-- White space is taken out of all lines as out of each. -/
theorem squeeze_flatten (ls : List (List Site)) :
    (ls.map squeeze).flatten = squeeze ls.flatten := by
  induction ls with
  | nil => rfl
  | cons l ls ih => rw [List.map_cons, List.flatten_cons, List.flatten_cons, squeeze_append, ih]

/-- **The formatter looks at the same lines in the tight tree.** -/
theorem of?_squeeze (htoken : ∀ s ∈ l, s.isToken = true) (htrim : Trim (l.map Site.stored)) :
    (of? (squeeze l)).map first = (of? l).map (fun line => line.first.tight) := by
  have hfirst {indent indent' : Option Site} {u : Site} (hu : u.isSpace = false) (us : List Site) :
      (first? indent' (squeeze (u :: us))).map first =
        (first? indent (u :: us)).map (fun line => line.first.tight) := by
    rw [squeeze_cons hu, first?, first?, tight_kind]
    split <;> rfl
  have hkind {u : Site} (hu : u ∈ l) : u.isSpace = (u.kind == .whitespace) :=
    isSpace_eq_kind (htoken u hu)
  have hplain {u : Site} (hu : u.isSpace = false) (hkind : u.isSpace = (u.kind == .whitespace))
      (us : List Site) : of? (squeeze (u :: us)) = first? none (squeeze (u :: us)) := by
    rw [squeeze_cons hu, of?, tight_kind, ← hkind, hu]
    rfl
  cases l with
  | nil => rfl
  | cons t ts =>
      cases ht : t.isSpace with
      | false =>
          rw [hplain ht (hkind List.mem_cons_self), hfirst ht ts, of?, ← hkind List.mem_cons_self, ht]
          rfl
      | true =>
          rw [squeeze_space ht, of?, ← hkind List.mem_cons_self, ht, if_pos rfl]
          cases ts with
          | nil => rfl
          | cons u us =>
              have hmem : u ∈ t :: u :: us := List.mem_cons_of_mem _ List.mem_cons_self
              have hu : u.isSpace = false := by
                rw [hkind hmem]
                refine htrim t.stored u.stored (us.map Site.stored) rfl ?_
                rw [← ht, hkind List.mem_cons_self]
                rfl
              rw [hplain hu (hkind hmem), hfirst hu us]

/-- A text is cut into the same lines without its white space, which ends no line. -/
theorem lines_squeeze {ls : List (List Site)} (h : Lines Site.endsLine ls)
    (hlast : ∀ s ∈ ls.flatten.getLast?, s.isSpace = false) :
    Lines Site.endsLine (ls.map squeeze) := by
  have hinner {l : List Site} (inner : ∀ s ∈ l, s.endsLine = false) :
      ∀ s ∈ squeeze l, s.endsLine = false := by
    intro s hs
    obtain ⟨r, hr, rfl⟩ := List.mem_map.1 hs
    rw [Site.endsLine, tight_kind]
    exact inner r (List.mem_filter.1 hr).1
  induction h with
  | nil => exact .nil
  | @last l ne inner =>
      obtain ⟨init, last, rfl⟩ := (List.eq_nil_or_concat l).resolve_left ne
      rw [List.concat_eq_append] at hlast inner ⊢
      have hspace := hlast last (by simp)
      refine .last ?_ (hinner inner)
      rw [squeeze_append, squeeze_cons hspace]
      exact List.append_ne_nil_of_right_ne_nil _ (List.cons_ne_nil _ _)
  | @cons front a ls inner stop rest ih =>
      have hspace : a.isSpace = false := not_space_of_kind (by decide) a stop
      rw [List.map_cons, squeeze_append, squeeze_cons hspace]
      refine .cons (hinner inner) ?_ (ih fun s hs => hlast s ?_)
      · rw [Site.endsLine, tight_kind]
        exact stop
      · rw [List.flatten_cons, List.getLast?_append, Option.mem_def.1 hs]
        rfl

/-- Trees whose lines start with at most one token of white space. -/
def Trimmed (root : Site) : Prop :=
  ∀ l ∈ linesOf Site.endsLine root.subtokens, Trim (l.map Site.stored)

/-- The last token of a tree is the end of the file, no white space. -/
theorem getLast_subtokens {t : Tree} (h : t.Regular) (origin : Nat) :
    ∀ s ∈ (top origin t).subtokens.getLast?, s.isSpace = false := by
  intro s hs
  obtain ⟨body, htokens, -⟩ := h.ends
  have hstored : (top origin t).subtokens.map Site.stored = body ++ [(.endOfFile, "")] :=
    (map_stored_subtokens _).trans htokens
  have hlast : ((top origin t).subtokens.map Site.stored).getLast? = some s.stored := by
    rw [List.getLast?_map, Option.mem_def.1 hs]
    rfl
  rw [hstored, List.getLast?_append, List.getLast?_singleton, Option.some_or] at hlast
  have hkind : s.kind = .endOfFile := congrArg Prod.fst (Option.some.inj hlast).symm
  exact not_space_of_kind (by decide) s (beq_iff_eq.2 hkind)

/-- What stands in a line is a token of the text. -/
theorem isToken_of_mem_linesOf {root s : Site} (hl : l ∈ linesOf Site.endsLine root.subtokens)
    (hs : s ∈ l) : s ∈ root.subtokens := by
  rw [← @flatten_linesOf _ Site.endsLine root.subtokens]
  exact List.mem_flatten.2 ⟨l, hl, hs⟩

/-- The first token of a line to look at is no white space where lines start with at most one
token of it. -/
theorem first_mem {t : Tree} {origin : Nat} (htrim : Trimmed (top origin t)) {line : Line}
    (hline : line ∈ all (top origin t)) :
    line.first ∈ (top origin t).firm ∧ isPassed line.first.kind = false := by
  rw [all_eq] at hline
  obtain ⟨l, hl, hof⟩ := List.mem_filterMap.1 hline
  have hkind := first_ne_whitespace hof (htrim l hl)
  obtain ⟨rest, rfl, -, hpassed, -⟩ := of?_eq_some hof
  have hmem : line.first ∈ line.indent.toList ++ line.first :: rest := by simp
  refine ⟨mem_firm.2 ⟨isToken_of_mem_linesOf hl hmem, ?_⟩, hpassed⟩
  exact Bool.eq_false_iff.2 fun hspace => hkind (kind_of_isSpace hspace)

/-- The lines to look at start with the same tokens in the tight tree. -/
theorem all_tight {t : Tree} (h : t.Regular) {origin : Nat} (htrim : Trimmed (top origin t)) :
    (all (top 0 t.tight)).map first = (all (top origin t)).map (fun line => line.first.tight) := by
  have hspace : (top origin t).isSpace = false := isSpace_of_isNode h.isNode
  have htokens : (top 0 t.tight).subtokens =
      ((linesOf Site.endsLine (top origin t).subtokens).map squeeze).flatten := by
    rw [squeeze_flatten, flatten_linesOf]
    exact tight_subtokens hspace
  have hlines := lines_squeeze (lines_linesOf (top origin t).subtokens) (by
    rw [flatten_linesOf]
    exact getLast_subtokens h origin)
  rw [all_eq, all_eq, htokens, linesOf_flatten hlines, List.filterMap_map, List.map_filterMap,
    List.map_filterMap]
  refine List.filterMap_congr fun l hl => ?_
  exact of?_squeeze (fun s hs => (List.mem_filter.1 (isToken_of_mem_linesOf hl hs)).2) (htrim l hl)

/-! ## The white space of lines -/

/-- The indentation of a line of stored tokens, if the formatter looks at the line. -/
def indentText? (line : Stored) : Option String :=
  match bodyOf line with
  | [] => none
  | x :: _ => if isPassed x.1 then none else some (textOf (indentOf line))

/-- The text of the white space that a line starts with is its indentation. -/
theorem textOf_indent (line : Line) :
    textOf (line.indent.toList.map Site.stored) = line.indentText := by
  obtain ⟨indent, first⟩ := line
  cases indent with
  | none => rfl
  | some w => simp [indentText, Site.stored]

/-- The indentation of a line can be read off its stored tokens. -/
theorem of?_indentText (htrim : Trim (l.map Site.stored)) :
    indentText? (l.map Site.stored) = (of? l).map indentText := by
  cases hof : of? l with
  | some line =>
      obtain ⟨-, -, -, hpassed, -⟩ := of?_eq_some hof
      obtain ⟨hindent, rest, hbody⟩ := split_of_of? hof htrim
      have hpassed : isPassed line.first.stored.1 = false := hpassed
      simp only [indentText?, hbody, hindent, hpassed, textOf_indent, Bool.false_eq_true, if_false,
        Option.map_some]
  | none =>
      -- a line that is passed over has nothing or a passed token behind its white space
      have hnone {indent : Option Site} {us : List Site} (h : first? indent us = none)
          (hus : ∀ u ∈ us.head?, isIndent u.stored = false) :
          (match (us.map Site.stored).dropWhile isIndent with
            | [] => none
            | x :: _ => if isPassed x.1 then none else some (textOf (indentOf (l.map Site.stored)))) =
            none := by
        cases us with
        | nil => rfl
        | cons u us =>
            have hu := hus u rfl
            rw [List.map_cons, List.dropWhile_cons_of_neg (by simp [hu])]
            rw [first?] at h
            split at h
            · next hpassed => exact if_pos hpassed
            · cases h
      cases l with
      | nil => rfl
      | cons t ts =>
          rw [of?] at hof
          split at hof
          · next ht =>
            have ht : isIndent t.stored = true := ht
            unfold indentText? bodyOf
            rw [List.map_cons, List.dropWhile_cons_of_pos ht]
            refine hnone hof fun u hu => ?_
            obtain ⟨us, rfl⟩ := List.head?_eq_some_iff.1 (Option.mem_def.1 hu)
            exact htrim t.stored u.stored (us.map Site.stored) rfl ht
          · next ht =>
            refine hnone hof fun u hu => ?_
            obtain rfl := Option.some.inj hu
            exact Bool.eq_false_iff.2 ht

end Line

namespace Indent

open Site Line

/-! ## The lines after a run -/

section After

variable {f : FormatterSettings} {spans : List Span} {l : List Site} {y : Stored}

/-- A line that is laid out anew starts with at most one token of white space if it did before.
-/
theorem trim_of_relaid (h : Relaid f spans l y) (htrim : Trim (l.map Site.stored)) : Trim y := by
  cases h with
  | keep => exact htrim
  | @set line rest moves hof =>
      have hfirst : isIndent line.first.stored = false := by
        simpa [isIndent, Site.stored] using Line.first_ne_whitespace hof htrim
      rintro x z back hline hx
      rw [spaceOf] at hline
      split at hline
      · obtain ⟨rfl, -⟩ := List.cons.inj hline
        exact absurd (hfirst.symm.trans hx) Bool.false_ne_true
      · obtain ⟨-, htail⟩ := List.cons.inj hline
        obtain ⟨rfl, -⟩ := List.cons.inj htail
        exact hfirst

/-- The text is what the line gets at some point of a run, and memory holds it. -/
def Gets (f : FormatterSettings) (spans : List Span) (line : Line) (text : String) : Prop :=
  ∃ moves, text = (given f spans moves line).1 ∧ ∀ t ∈ wanted f spans moves line, Held f t.1

/-- The line that a line becomes is looked at again if it was, and has the white space given to it. -/
theorem indentText?_of_relaid (h : Relaid f spans l y) (htrim : Trim (l.map Site.stored)) :
    Option.Rel (Gets f spans) (of? l) (indentText? y) := by
  cases h with
  | keep hof =>
      rw [of?_indentText htrim, hof]
      exact .none
  | @set line rest moves hof hheld =>
      obtain ⟨-, -, -, hpassed, -⟩ := of?_eq_some hof
      have hpassed : isPassed line.first.stored.1 = false := hpassed
      have hfirst : line.first.stored.1 ≠ .whitespace := first_ne_whitespace hof htrim
      have hsplit := indentOf_append
        (fun x hx => (mem_spaceOf (given f spans moves line).1 x hx).1) hfirst (rest.map Site.stored)
      have htext : textOf (tokensAll (spaceOf (given f spans moves line).1)) =
          (given f spans moves line).1 := by
        rw [spaceOf]
        split
        · next hempty =>
          rw [hempty]
          rfl
        · exact (textOf_cons _ []).trans String.append_empty
      have hnew : indentText? (tokensAll (spaceOf (given f spans moves line).1) ++
          (line.first :: rest).map Site.stored) = some (given f spans moves line).1 := by
        rw [List.map_cons, indentText?, show bodyOf _ = _ from hsplit.2, show indentOf _ = _ from hsplit.1]
        dsimp only
        rw [hpassed, if_neg Bool.false_ne_true, htext]
      rw [hof, hnew]
      exact .some ⟨moves, rfl, hheld⟩

/-- The file still ends where it did, and all before that has text. -/
theorem ends_of_relaid {ls : List (List Site)} {ys : List Stored} {e : Kind × String} {body : Stored}
    (hne : ∀ l ∈ ls, l ≠ []) (h : List.Forall₂ (Relaid f spans) ls ys)
    (htokens : ls.flatten.map Site.stored = body ++ [e]) (hsolid : ∀ x ∈ body, x.2 ≠ "") :
    ∃ body', ys.flatten = body' ++ [e] ∧ ∀ x ∈ body', x.2 ≠ "" := by
  induction h generalizing body with
  | nil => exact absurd htokens.symm (List.append_ne_nil_of_right_ne_nil _ (List.cons_ne_nil _ _))
  | @cons l y ls ys hy hrest ih =>
      obtain ⟨hl, hls⟩ := List.forall_mem_cons.1 hne
      obtain ⟨init, last, front, rfl, rfl, hfront⟩ := hy.ends hl
      rw [List.flatten_cons, List.map_append] at htokens
      -- the last line ends with the end of the file, the others with a token that has text
      rcases List.eq_nil_or_concat (ls.flatten.map Site.stored) with hnone | ⟨more, e', hmore⟩
      · obtain rfl : ls = [] := by
          cases ls with
          | nil => rfl
          | cons l ls => exact absurd (by simpa using hnone : l = [] ∧ _).1 (hls l List.mem_cons_self)
        cases hrest
        have hline : init.map Site.stored ++ [last.stored] = body ++ [e] := by simpa using htokens
        obtain ⟨rfl, hlast⟩ := List.append_inj' hline rfl
        obtain rfl : last.stored = e := by simpa using hlast
        refine ⟨front, by simp, fun x hx => ?_⟩
        rcases hfront x hx with hx | ⟨-, htext⟩
        · exact hsolid x hx
        · exact htext
      · have hline : (init ++ [last]).map Site.stored ++ more ++ [e'] = body ++ [e] := by
          rw [← htokens, hmore]
          simp
        obtain ⟨rfl, hlast⟩ := List.append_inj' hline rfl
        obtain rfl : e' = e := by simpa using hlast
        obtain ⟨body', hbody', hsolid'⟩ := ih hls (by rw [hmore, List.concat_eq_append])
          fun x hx => hsolid x (List.mem_append_right _ hx)
        refine ⟨front ++ [last.stored] ++ body', by simp [hbody'], fun x hx => ?_⟩
        rcases List.mem_append.1 hx with hx | hx
        · rcases List.mem_append.1 hx with hx | hx
          · rcases hfront x hx with hx | ⟨-, htext⟩
            · exact hsolid x (by rw [List.map_append]; simp [hx])
            · exact htext
          · exact hsolid x (by rw [List.map_append, List.mem_singleton.1 hx]; simp)
        · exact hsolid' x hx

/-- **What a run leaves**: a regular tree, in which each line to look at has the white space that it
was given. -/
theorem lines_after {k : Kind} {cs cs' : List Tree} {origin : Nat} (origin' : Nat) {ys : List Stored}
    (hreg : (Tree.node k cs).Regular) (htrim : Trimmed (top origin (.node k cs)))
    (htokens : tokensAll cs' = ys.flatten)
    (hlines : List.Forall₂ (Relaid f spans)
      (linesOf Site.endsLine (top origin (.node k cs)).subtokens) ys)
    (hre : Reindented cs cs') :
    (Tree.node k cs').Regular ∧ Trimmed (top origin' (.node k cs')) ∧
      List.Forall₂ (fun line line' => Gets f spans line line'.indentText)
        (Line.all (top origin (.node k cs))) (Line.all (top origin' (.node k cs'))) := by
  have hrows : Lines Site.endsLine (linesOf Site.endsLine (top origin (.node k cs)).subtokens) :=
    lines_linesOf _
  obtain ⟨body, hbody, hsolid⟩ := hreg.ends
  have hold : (linesOf Site.endsLine (top origin (.node k cs)).subtokens).flatten.map Site.stored =
      body ++ [(.endOfFile, "")] := by
    rw [flatten_linesOf, ← hbody]
    exact map_stored_subtokens _
  have hnew : (linesOf Site.endsLine (top origin' (.node k cs')).subtokens).map
      (List.map Site.stored) = ys := by
    have hends : ∀ s : Site, endsLine s.stored = s.endsLine := fun _ => rfl
    rw [← linesOf_map hends, map_stored_subtokens,
      ← linesOf_flatten (lines_of_relaid hrows hlines), ← htokens]
    rfl
  have htrimmed : ∀ y ∈ ys, Trim y := by
    intro y hy
    obtain ⟨l, hl, hrel⟩ := exists_of_mem_left hlines.flip hy
    exact trim_of_relaid hrel (htrim l hl)
  have htrim' : Trimmed (top origin' (.node k cs')) := fun l hl =>
    htrimmed _ (hnew ▸ List.mem_map_of_mem hl)
  have htexts : (Line.all (top origin' (.node k cs'))).map indentText = ys.filterMap indentText? := by
    rw [all_eq, ← hnew, List.map_filterMap, List.filterMap_map]
    exact List.filterMap_congr fun l hl => (of?_indentText (htrim' l hl)).symm
  refine ⟨⟨⟨k, cs', rfl, hre.fresh⟩, ?_⟩, htrim', ?_⟩
  · obtain ⟨body', hbody', hsolid'⟩ := ends_of_relaid hrows.ne_nil hlines hold hsolid
    exact ⟨body', htokens.trans hbody', hsolid'⟩
  · have hrel := filterMap_matched (S := Gets f spans)
      (fun l y h => indentText?_of_relaid h.1 (htrim l h.2.1)) (forall₂_mem hlines)
    rw [← all_eq, ← htexts] at hrel
    exact List.forall₂_map_right_iff.1 hrel

end After

/-- A word or a comment starts before the text ends. -/
theorem inSpans_whole {t : Tree} {origin : Nat} (h : t.Regular)
    (htrim : Trimmed (top origin t)) {l : Line} (hl : l ∈ Line.all (top origin t)) :
    inSpans [⟨0, t.width⟩] l = true := by
  obtain ⟨hfirm, hpassed⟩ := first_mem htrim hl
  have hkind : l.first.kind ≠ .endOfFile := by
    intro hkind
    rw [hkind] at hpassed
    cases hpassed
  have hwithin := (Site.subtree_within.1 t origin 0 [] l.first (mem_subtree_of_firm hfirm)).2
  have hsolid := (solid_of_firm h hfirm hkind).1
  simp only [inSpans, List.any_cons, List.any_nil, Span.contains, Bool.or_false, Bool.and_eq_true,
    decide_eq_true_eq]
  omega

/-- **After a run over the whole text every line is settled.** -/
theorem settled_after {f : FormatterSettings} {t t' : Tree} {origin origin' : Nat} (h : t.Regular)
    (h' : t'.Regular) (hkind : t.kind = .compilationUnit) (htight : t'.tight = t.tight)
    (htrim : Trimmed (top origin t)) (htrim' : Trimmed (top origin' t'))
    (hlines : List.Forall₂ (fun line line' => Gets f [⟨0, t.width⟩] line line'.indentText)
      (Line.all (top origin t)) (Line.all (top origin' t'))) :
    ∀ l' ∈ Line.all (top origin' t'), Settled f l' := by
  have hkind' : t'.kind = .compilationUnit := by rw [← kind_tight t', htight, kind_tight, hkind]
  have hfirsts : (Line.all (top origin t)).map (fun line => line.first.tight) =
      (Line.all (top origin' t')).map (fun line => line.first.tight) := by
    rw [← all_tight h htrim, ← all_tight h' htrim', htight]
  intro l' hl'
  obtain ⟨l, hl, ⟨moves, htext, hheld⟩, hfirst⟩ :=
    exists_of_mem_left (matched_of_map_list_eq hfirsts hlines).flip hl'
  refine settled_of_given (inSpans_whole h htrim hl) ?_ htext hheld
  rw [← aim_tight h' hkind' (first_mem htrim' hl').1, ← hfirst, aim_tight h hkind (first_mem htrim hl).1]

end Indent

namespace Document

/-- The lexer makes one token of all white space in a row, so lines start with at most one. -/
theorem trimmed (version : Nat) (text : String) : Line.Trimmed (ofText version text).root := by
  obtain ⟨-, hspaced⟩ := tree_regular version text
  intro l hl
  apply Spaced.trim
  refine hspaced.infix ?_
  have htokens : (ofText version text).tree.tokens =
      ((linesOf Site.endsLine (ofText version text).root.subtokens).map (List.map Site.stored)).flatten := by
    rw [← List.map_flatten, flatten_linesOf]
    exact (Site.map_stored_subtokens (ofText version text).root).symm
  rw [htokens]
  exact List.infix_of_mem_flatten (List.mem_map_of_mem hl)

/-- **The formatter is idempotent.**  Whatever the text and the settings, a run over all that a run over
the whole text has made goes through and has no change to make.  The first run goes through if its
result fits. -/
theorem indents_once (version stamp : Nat) (text : String) (f : FormatterSettings)
    (cancel : Cancellation) (hcancel : cancel.requested = false) :
    let document := ofText version text
    let spans := [⟨0, document.length⟩]
    ((⟨version, Indent.splices f spans [] (Line.all document.root)⟩ : Patch).Fits document →
      ∃ document', Indent.apply f document spans cancel stamp = .ok document') ∧
    ∀ document', Indent.apply f document spans cancel stamp = .ok document' →
      Indent.patch f document' [⟨0, document'.length⟩] cancel = .ok ⟨document'.version, []⟩ := by
  intro document spans
  obtain ⟨hreg, -⟩ := tree_regular version text
  refine ⟨fun hfits => Indent.exists_apply hreg hcancel hfits stamp, fun document' happly => ?_⟩
  obtain ⟨k, cs, cs', ys, htree, htree', htokens, hlines, hre⟩ :=
    Indent.redone_of_apply hreg happly
  have hroot : document.root = Site.top document.origin (.node k cs) := by
    rw [root, show document.tree = _ from htree]
  have htrim : Line.Trimmed (Site.top document.origin (.node k cs)) := hroot ▸ trimmed version text
  have hkind : (Tree.node k cs).kind = .compilationUnit := by
    obtain ⟨_, hunit, -⟩ := parse_tree text
    rw [← htree]
    exact congrArg Tree.kind hunit
  rw [show document.tree = _ from htree] at hreg
  rw [show spans = [⟨0, (Tree.node k cs).width⟩] by rw [← htree]; rfl, hroot] at hlines
  obtain ⟨hreg', htrim', hafter⟩ :=
    Indent.lines_after document'.origin hreg htrim htokens hlines hre
  have htight : (Tree.node k cs').tight = (Tree.node k cs).tight := congrArg (Tree.node k) hre.tight
  have hsettled := Indent.settled_after hreg hreg' hkind htight htrim htrim' hafter
  have hroot' : document'.root = Site.top document'.origin (.node k cs') := by rw [root, htree']
  obtain ⟨hnone, hheld⟩ := Indent.splices_of_settled (hroot' ▸ hsettled)
    (fun m hm => absurd hm List.not_mem_nil) [⟨0, document'.length⟩]
  rw [Indent.patch_eq_ok hcancel hheld, hnone]

/-- With tabs: a member too far left, the lines of a statement that begins too far right, and a
comment. -/
theorem indents_once_class :
    let f : FormatterSettings := ⟨some .tabs, none⟩
    let text := "class C\n\x7b\nint F()\n\x7b\n          return\n            1;\n// end\n\x7d\n\x7d\n"
    let document := ofText 1 text
    ((Indent.apply f document [⟨0, document.length⟩] {} 2).toOption.map Document.text) =
        some "class C\n\x7b\n\tint F()\n\t\x7b\n\t\treturn\n\t\t  1;\n\t\t// end\n\t\x7d\n\x7d\n" ∧
      ∃ document', Indent.apply f document [⟨0, document.length⟩] {} 2 = .ok document' ∧
        Indent.patch f document' [⟨0, document'.length⟩] {} = .ok ⟨document'.version, []⟩ := by
  intro f text document
  obtain ⟨hsucceeds, honce⟩ := indents_once 1 2 text f {} rfl
  obtain ⟨document', happly⟩ := hsucceeds (by unfold Patch.Fits; decide +kernel)
  exact ⟨by decide +kernel, document', happly, honce document' happly⟩

end Document

end CodeMend
