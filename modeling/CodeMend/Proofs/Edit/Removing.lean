import CodeMend.Proofs.Edit.Orphans
import CodeMend.Proofs.Trivia.Gaps
import CodeMend.Proofs.Trivia.Walks

/-!
# What a removal leaves of comments and lines

However much trivia is to go with a node, the removal is refused if that trivia holds a comment.  So
where it goes through, the comments of the new tree are those of the old one outside the node
(`Removal.commentsAmong_eq`): what is taken away is a cut between tokens, and what is written back in
its place are directives and line breaks.

A member that comes first behind an opening brace also takes the blank lines behind it away.  What is
then left between the brace and the next word is the trivia that trails the brace, which has one line
break at most, and what stands behind the last of the blank lines: white space, up to a comment or a
directive if there is one.  That is no blank line (`runKind_ne_blankLine`).
-/

namespace CodeMend

open Tree Site

variable {root : Site}

/-! ## Comments -/

/-- The comments among tokens. -/
def Site.commentsAmong (ls : List Site) : List Site := ls.filter (·.kind.isComment)

/-- The comments among stored tokens. -/
def commentsOf (xs : Stored) : Stored := xs.filter (·.1.isComment)

theorem commentsOf_append (xs ys : Stored) : commentsOf (xs ++ ys) = commentsOf xs ++ commentsOf ys :=
  List.filter_append xs ys

theorem commentsOf_stored (ls : List Site) :
    commentsOf (ls.map Site.stored) = (commentsAmong ls).map Site.stored := by
  rw [commentsOf, List.filter_map]
  rfl

/-- Tokens without text do not matter if no comment is without text. -/
theorem commentsOf_solid {xs : Stored} (h : ∀ x ∈ xs, x.1.isComment = true → x.2 ≠ "") :
    commentsOf (solid xs) = commentsOf xs := by
  rw [commentsOf, solid, List.filter_filter]
  refine List.filter_congr fun x hx => ?_
  cases hcomment : x.1.isComment with
  | false => rfl
  | true => simp [h x hx hcomment]

theorem Clean.comment_solid (hroot : Clean root) {t : Site} (ht : t ∈ root.subtokens)
    (hcomment : t.kind.isComment = true) : t.start < t.stop := by
  refine hroot.start_lt_stop ht fun hkind => ?_
  rw [hkind] at hcomment
  cases hcomment

theorem Clean.text_ne_empty (hroot : Clean root) {t : Site} (ht : t ∈ root.subtokens)
    (hkind : t.kind ≠ .endOfFile) : t.stored.2 ≠ "" := by
  intro hempty
  have hlt := hroot.start_lt_stop ht hkind
  rw [stop_eq, Site.width_of_isToken (List.mem_filter.1 ht).2, show t.text = "" from hempty] at hlt
  simp at hlt

namespace Removal

variable {d : Document} {n : Site} {e : Editor}

/-- What the checks say of a splice that takes a node away: it takes all of the node, no comment
around it, and writes no comment back. -/
structure Clears (d : Document) (n : Site) (s : Splice) : Prop where
  ordered : s.span.Ordered
  covers : s.span.covers n.span = true
  comments : Editor.exteriorComments ⟨d, []⟩ s.span n.span = []
  new : commentsOf (tokensAll s.replacement.elements) = []

/-- A check that passes has found no comment outside the node. -/
theorem checkExteriorComments_eq_ok {removed inner : Span}
    (h : Editor.checkExteriorComments ⟨d, []⟩ removed inner = .ok ()) :
    Editor.exteriorComments ⟨d, []⟩ removed inner = [] := by
  unfold Editor.checkExteriorComments at h
  dsimp only at h
  split at h
  · next hempty => exact List.isEmpty_iff.1 hempty
  · cases h

theorem removedSpan_covers (n : Site) (policy : RemovalPolicy) :
    (Editor.removedSpan policy n.span n.fullSpan).covers n.span = true := by
  have hcovers := covers_iff.1 (fullSpan_covers n)
  rw [covers_iff]
  cases policy <;> dsimp only [Editor.removedSpan] <;> omega

/-- What is written back are directives and line breaks. -/
theorem commentsOf_keptDirectives (hroot : Clean d.root) (bounds : Span) :
    commentsOf (tokensAll (Editor.keptDirectives ⟨d, []⟩ bounds).elements) = [] := by
  have hdirective : ∀ t ∈ d.root.unbalancedIn bounds,
      t.isToken = true ∧ t.kind.isComment = false := by
    intro t ht
    have hmem := Directive.mem_of_mem_unbalanced ht
    rw [hroot.directivesIn_eq] at hmem
    obtain ⟨hmem, hcovered⟩ := List.mem_filter.1 hmem
    have hkind := (Bool.and_eq_true_iff.1 hcovered).1
    refine ⟨(List.mem_filter.1 hmem).2, ?_⟩
    revert hkind
    cases t.kind <;> decide
  rw [Editor.keptDirectives]
  show commentsOf (tokensAll ((d.root.unbalancedIn bounds).flatMap _)) = []
  generalize d.root.unbalancedIn bounds = ds at hdirective ⊢
  induction ds with
  | nil => rfl
  | cons t ds ih =>
      obtain ⟨htoken, hkind⟩ := hdirective t List.mem_cons_self
      have hrest := ih fun c hc => hdirective c (List.mem_cons_of_mem t hc)
      have hone : commentsOf [t.stored] = [] := by simp [commentsOf, Site.stored, hkind]
      rw [List.flatMap_cons, tokensAll_append, commentsOf_append, hrest, tokensAll,
        Site.tokens_of_isToken htoken, commentsOf_append, hone]
      rfl

/-- Under each policy, a removal that goes through takes comments away only within the span of
the node. -/
theorem removeNode_clears (hroot : Clean d.root) {policy : RemovalPolicy}
    (h : Editor.removeNode ⟨d, []⟩ n policy = .ok e) :
    ∃ s : Splice, e = ⟨d, [s]⟩ ∧ Clears d n s := by
  have hordered := (covers_removedSpan n policy).2
  have hcovers := removedSpan_covers n policy
  obtain ⟨-, -, h⟩ := bind_eq_ok h
  by_cases hpolicy : policy = .keepUnbalancedDirectives
  · subst hpolicy
    obtain ⟨-, -, h⟩ := bind_eq_ok h
    obtain ⟨_, hcomments, h⟩ := bind_eq_ok h
    cases h
    exact ⟨_, rfl, hordered, hcovers, checkExteriorComments_eq_ok hcomments,
      commentsOf_keptDirectives hroot _⟩
  · simp only [beq_iff_eq, hpolicy, if_false] at h
    obtain ⟨-, -, h⟩ := bind_eq_ok h
    obtain ⟨_, hcomments, h⟩ := bind_eq_ok h
    cases h
    exact ⟨_, rfl, hordered, hcovers, checkExteriorComments_eq_ok hcomments, rfl⟩

/-- Where the text that goes with a member ends. -/
def memberStop (n : Site) : Nat :=
  if Editor.followsOpenBrace n then (Editor.blankLinesEnd? n).getD n.fullSpan.stop
  else n.fullSpan.stop

/-- So does the removal of a member with the blank lines behind it. -/
theorem removeMember_clears (hroot : Clean d.root) (hn : n ∈ d.root.subnodes)
    (h : Editor.removeMember ⟨d, []⟩ n = .ok e) :
    e = ⟨d, [⟨⟨n.fullSpan.start, memberStop n⟩, some n.kind, .empty⟩]⟩ ∧
      Clears d n ⟨⟨n.fullSpan.start, memberStop n⟩, some n.kind, .empty⟩ := by
  have hle : n.fullSpan.stop ≤ memberStop n := (hroot.directivesIn_member hn rfl).1
  have hcovers := covers_span_iff.1 (fullSpan_covers n)
  have hspan := n.start_le_stop
  obtain ⟨-, -, h⟩ := bind_eq_ok h
  obtain ⟨-, -, h⟩ := bind_eq_ok h
  obtain ⟨_, hcomments, h⟩ := bind_eq_ok h
  cases h
  have hordered : n.fullSpan.start ≤ memberStop n := by omega
  have hstop : n.stop ≤ memberStop n := by omega
  exact ⟨rfl, hordered, covers_span_iff.2 ⟨hcovers.1, hstop⟩,
    checkExteriorComments_eq_ok hcomments, rfl⟩

/-- A comment that is taken away is one of the node. -/
theorem Clears.covers_of_comment (hroot : Clean d.root) {s : Splice} (h : Clears d n s) {t : Site}
    (ht : t ∈ d.root.subtokens) (hcomment : t.kind.isComment = true)
    (hcovered : s.span.covers t.span = true) : n.span.covers t.span = true := by
  have hmem : t ∈ (d.root.tokensIn s.span).filter
      (fun t => t.kind.isComment && s.span.covers t.span) := by
    rw [hroot.filter_tokensIn rfl]
    exact List.mem_filter.2 ⟨ht, by rw [hcomment, hcovered]; rfl⟩
  obtain ⟨hin, -⟩ := List.mem_filter.1 hmem
  have houtside := List.filter_eq_nil_iff.1 h.comments t hin
  simpa [hcomment, hcovered] using houtside

/-- A comment that is not taken away lies outside the node. -/
theorem Clears.not_covers (hroot : Clean d.root) {s : Splice} (h : Clears d n s)
    {before cut after : List Site} (hcut : CutAt d.root s.span before cut after) {t : Site}
    (ht : t ∈ commentsAmong before ∨ t ∈ commentsAmong after) : n.span.covers t.span = false := by
  have hordered : s.span.start ≤ s.span.stop := h.ordered
  refine Bool.eq_false_iff.2 fun hinner => ?_
  rw [covers_span_iff] at hinner
  have hcovers := covers_span_iff.1 h.covers
  have : n.span.start = n.start := rfl
  have : n.span.stop = n.stop := rfl
  rcases ht with ht | ht
  · obtain ⟨ht, hcomment⟩ := List.mem_filter.1 ht
    have hsolid := hroot.comment_solid (by rw [hcut.tokens]; simp [ht]) hcomment
    have := hcut.before_le hroot ht
    omega
  · obtain ⟨ht, hcomment⟩ := List.mem_filter.1 ht
    have hsolid := hroot.comment_solid (by rw [hcut.tokens]; simp [ht]) hcomment
    have := hcut.le_after hroot ht
    omega

/-- **The comments left** are those outside the node, in their order. -/
theorem Clears.commentsOf_eq (hroot : Clean d.root) {s : Splice} (h : Clears d n s) {ys : Stored}
    (hys : Swapped 0 s.span.start s.span.stop (tokensAll s.replacement.elements)
      d.root.tree.tokens ys) :
    commentsOf ys = ((commentsAmong d.root.subtokens).filter
      (fun t => !n.span.covers t.span)).map Site.stored := by
  obtain ⟨before, cut, after, rest, hcut, rfl, hrest, hsolid⟩ := hroot.cut_of_swapped hys
  have htext : ∀ x ∈ (cut ++ after).map Site.stored, x.1.isComment = true → x.2 ≠ "" := by
    intro x hx hcomment
    obtain ⟨t, ht, rfl⟩ := List.mem_map.1 hx
    refine hroot.text_ne_empty (by rw [hcut.tokens]; exact List.mem_append_right _ ht) ?_
    intro hkind
    rw [show t.stored.1 = t.kind from rfl, hkind] at hcomment
    cases hcomment
  have hafter : commentsOf rest = commentsOf (after.map Site.stored) := by
    rw [← commentsOf_solid fun x hx => htext x (hrest.subset hx), hsolid,
      commentsOf_solid fun x hx => htext x (by
        rw [List.map_append]
        exact List.mem_append_right _ hx)]
  have hinside : (commentsAmong cut).filter (fun t => !n.span.covers t.span) = [] := by
    refine List.filter_eq_nil_iff.2 fun t ht => ?_
    obtain ⟨ht, hcomment⟩ := List.mem_filter.1 ht
    have hcovered := h.covers_of_comment hroot (by rw [hcut.tokens]; simp [ht]) hcomment
      (covers_span_iff.2 (hcut.covers_cut hroot ht))
    simp [hcovered]
  have houtside (ls : List Site)
      (hls : ∀ t ∈ commentsAmong ls, t ∈ commentsAmong before ∨ t ∈ commentsAmong after) :
      (commentsAmong ls).filter (fun t => !n.span.covers t.span) = commentsAmong ls :=
    List.filter_eq_self.2 fun t ht => by rw [h.not_covers hroot hcut (hls t ht)]; rfl
  have hsplit : commentsAmong d.root.subtokens =
      commentsAmong before ++ (commentsAmong cut ++ commentsAmong after) := by
    rw [hcut.tokens, commentsAmong, List.filter_append, List.filter_append]
    rfl
  rw [commentsOf_append, commentsOf_append, hafter, h.new, List.nil_append, commentsOf_stored,
    commentsOf_stored, hsplit, List.filter_append, List.filter_append, hinside,
    houtside before fun t ht => Or.inl ht, houtside after fun t ht => Or.inr ht, List.nil_append,
    List.map_append]

end Removal

/-! ## Runs of trivia -/

/-- Does a run of trivia break no line, or hold a comment or a directive? -/
def Unbroken (ks : List Kind) : Prop :=
  Kind.newline ∉ ks ∨ ∃ k ∈ ks, k.isComment = true ∨ k.isDirective = true

/-- One line break and then none make no blank line. -/
theorem runKind_ne_blankLine {first rest : List Kind} (hfirst : first.count .newline ≤ 1)
    (hrest : Unbroken rest) : runKind (first ++ rest) ≠ .blankLine := by
  unfold runKind
  by_cases hbearing : ((first ++ rest).any Kind.isComment || (first ++ rest).any Kind.isDirective) =
      true
  · rw [if_pos hbearing]
    nofun
  · rw [if_neg hbearing]
    rcases hrest with hnone | ⟨k, hk, hkind⟩
    · rw [List.count_append, List.count_eq_zero.2 hnone, Nat.add_zero]
      rcases Nat.le_one_iff_eq_zero_or_eq_one.1 hfirst with hcount | hcount
      · rw [hcount]
        decide
      · rw [hcount]
        decide
    · refine absurd ?_ hbearing
      rw [Bool.or_eq_true, List.any_eq_true, List.any_eq_true]
      exact hkind.imp (fun h => ⟨k, List.mem_append_right first hk, h⟩)
        fun h => ⟨k, List.mem_append_right first hk, h⟩

/-- What trails a token has one line break at most. -/
theorem Site.count_trailingPart (run : List Site) :
    ((trailingPart run).map Site.kind).count .newline ≤ 1 := by
  fun_induction trailingPart run with
  | case1 => exact Nat.zero_le 1
  | case2 t ts hbreak => simp [beq_iff_eq.1 hbreak]
  | case3 t ts hbreak ih =>
      have hne : t.kind ≠ .newline := fun h => hbreak (beq_iff_eq.2 h)
      rwa [List.map_cons, List.count_cons_of_ne hne]

theorem Site.trailingPart_subset (run : List Site) : trailingPart run ⊆ run := by
  have hsplit := trailingPart_append_leadingPart run
  intro t ht
  rw [← hsplit]
  exact List.mem_append_left _ ht

/-- White space or a line break? -/
def Site.isBlank (t : Site) : Bool := t.kind == .newline || t.kind == .whitespace

/-- Behind the last of the blank lines no line is broken before a comment or a directive. -/
theorem Site.unbroken_behind {post rest : List Site} (htoken : ∀ t ∈ rest, t.isToken = true)
    (hpost : ∀ t ∈ post, t.kind ≠ .newline) (htrivia : ∀ t ∈ post, t.isTrivia = true) :
    Unbroken (((post ++ rest.dropWhile isBlank).takeWhile isTrivia).map Site.kind) := by
  rw [List.takeWhile_append_of_pos htrivia]
  cases hbehind : rest.dropWhile isBlank with
  | nil =>
      left
      simpa using fun t ht h => hpost t ht h
  | cons t ts =>
      have hblank : t.isBlank = false := by
        simpa [hbehind] using List.head?_dropWhile_not isBlank rest
      have ht : t.isToken = true := by
        refine htoken t ((List.dropWhile_sublist isBlank).subset ?_)
        rw [hbehind]
        exact List.mem_cons_self
      cases hkind : t.isTrivia with
      | false =>
          left
          simpa [hkind] using fun t ht h => hpost t ht h
      | true =>
          -- trivia that is not blank is a comment or a directive
          right
          refine ⟨t.kind, by simp [hkind], ?_⟩
          have hk : t.kind.isTrivia = true := (isTrivia_stored ht).trans hkind
          simp only [isBlank, Bool.or_eq_false_iff, beq_eq_false_iff_ne] at hblank
          simpa [Kind.isTrivia, hblank.1, hblank.2] using hk

/-! ## The blank lines behind a member -/

theorem Site.trailingPart_eq_nil {run : List Site} (h : trailingPart run = []) : run = [] := by
  cases run with
  | nil => rfl
  | cons t ts =>
      rw [trailingPart] at h
      split at h <;> cases h

theorem Site.isTrivia_of_isBlank {t : Site} (htoken : t.isToken = true) (hblank : t.isBlank = true) :
    t.isTrivia = true := by
  rw [← isTrivia_stored htoken, show t.stored.1 = t.kind from rfl]
  rcases Bool.or_eq_true_iff.1 hblank with h | h <;>
  · rw [beq_iff_eq.1 h]
    rfl

/-- A row can be cut behind the last break of its blank lines, or at its start if they break no line. -/
theorem Site.exists_unbroken {rest : List Site} (htoken : ∀ t ∈ rest, t.isToken = true) :
    ∃ lines behind, rest = lines ++ behind ∧
      lines.getLast? = ((rest.takeWhile isBlank).filter (·.kind == .newline)).getLast? ∧
      Unbroken ((behind.takeWhile Site.isTrivia).map Site.kind) := by
  have hblanks : rest.takeWhile isBlank ++ rest.dropWhile isBlank = rest :=
    List.takeWhile_append_dropWhile
  have htrivia : ∀ t ∈ rest.takeWhile isBlank, t.isTrivia = true := fun t ht =>
    isTrivia_of_isBlank (htoken t ((List.takeWhile_sublist isBlank).subset ht))
      (List.mem_takeWhile_imp ht)
  cases hlast : ((rest.takeWhile isBlank).filter (·.kind == .newline)).getLast? with
  | none =>
      have hnone : ∀ t ∈ rest.takeWhile isBlank, t.kind ≠ .newline := by
        simpa using List.filter_eq_nil_iff.1 (List.getLast?_eq_none_iff.1 hlast)
      have hunbroken := unbroken_behind htoken hnone htrivia
      rw [hblanks] at hunbroken
      exact ⟨[], rest, rfl, rfl, hunbroken⟩
  | some newline =>
      obtain ⟨breaks, hbreaks⟩ := List.getLast?_eq_some_iff.1 hlast
      obtain ⟨pre, line, hblank, -, hline⟩ := List.filter_eq_append_iff.1 hbreaks
      obtain ⟨gap, post, rfl, -, -, hpost⟩ := List.filter_eq_cons_iff.1 hline
      have hpost : ∀ t ∈ post, t.kind ≠ .newline := by
        simpa using List.filter_eq_nil_iff.1 hpost
      have hsplit : rest = ((pre ++ gap) ++ [newline]) ++ (post ++ rest.dropWhile isBlank) := by
        conv_lhs => rw [← hblanks, hblank]
        simp
      refine ⟨_, _, hsplit, List.getLast?_concat, unbroken_behind htoken hpost fun t ht => ?_⟩
      apply htrivia
      rw [hblank]
      simp [ht]

/-- A member without trivia that trails it is followed by a word. -/
theorem Clean.exists_behind_word (hroot : Clean root) {n first last : Site} (hn : n ∈ root.subtree)
    (hframed : Framed n first last) (htrail : last.trailingTrivia.getLast? = none) :
    ∃ front behind, root.subtokens = front ++ behind ∧ widthOfSites front = n.fullSpan.stop ∧
      behind.takeWhile Site.isTrivia = [] := by
  obtain ⟨left, right, hls⟩ := leaves_of_mem.1 root.tree root.origin root.start root.above n hn
  obtain ⟨others, hends⟩ := hframed.ends
  rw [← leaves_eq, hroot.leaves, hends] at hls
  have hsplit : root.subtokens = (left ++ others) ++ last :: right := by rw [hls]; simp
  have hnil : last.trailingTrivia = [] := by simpa using htrail
  have hfull : n.fullSpan.stop = last.stop := by
    rw [fullSpan, hframed.firstSignificant, hframed.lastSignificant, hframed.span_eq]
    simp [trailingSpan, htrail]
  refine ⟨(left ++ others) ++ [last], right, by rw [hsplit]; simp, ?_, ?_⟩
  · rw [hfull, hroot.chain.stop_eq hsplit]
  · exact trailingPart_eq_nil (hroot.chain.trailingTrivia_eq hsplit hframed.significant.2 ▸ hnil)

/-- Where the blank lines behind a member end, among the tokens behind the trivia that trails it. -/
theorem Clean.blankLinesEnd?_eq (hroot : Clean root) {n first last trailing : Site}
    (hframed : Framed n first last) (htrail : last.trailingTrivia.getLast? = some trailing)
    {before rest : List Site} (hls : root.subtokens = before ++ trailing :: rest) :
    Editor.blankLinesEnd? n =
      ((rest.takeWhile isBlank).filter (·.kind == .newline)).getLast?.map Site.stop := by
  have hafter : trailing.tokensAfter = rest := hroot.chain.after _ _ _ hls
  simp only [Editor.blankLinesEnd?, hframed.lastSignificant, Option.bind_eq_bind,
    Option.bind_some, htrail, hafter, Option.map_eq_bind]
  rfl

/-- Behind the text that goes with a member there is no line break before a comment or a directive,
or the next word. -/
theorem Clean.exists_behind (hroot : Clean root) {n first last : Site} (hn : n ∈ root.subtree)
    (hframed : Framed n first last) : ∃ front behind, root.subtokens = front ++ behind ∧
      widthOfSites front = (Editor.blankLinesEnd? n).getD n.fullSpan.stop ∧
      Unbroken ((behind.takeWhile Site.isTrivia).map Site.kind) := by
  cases htrail : last.trailingTrivia.getLast? with
  | none =>
      obtain ⟨front, behind, hsplit, hwidth, hword⟩ := hroot.exists_behind_word hn hframed htrail
      have hnone : Editor.blankLinesEnd? n = none := by
        simp [Editor.blankLinesEnd?, hframed.lastSignificant, htrail]
      refine ⟨front, behind, hsplit, by rw [hnone, Option.getD_none, hwidth], ?_⟩
      rw [hword]
      exact Or.inl List.not_mem_nil
  | some trailing =>
      obtain ⟨before, rest, hls, hfull⟩ := hroot.split_behind hn hframed htrail
      have htoken : ∀ t ∈ rest, t.isToken = true := fun t ht =>
        (List.mem_filter.1 (show t ∈ root.subtokens by rw [hls]; simp [ht])).2
      obtain ⟨lines, behind, rfl, hlast, hunbroken⟩ := exists_unbroken htoken
      refine ⟨before ++ trailing :: lines, behind, by rw [hls]; simp, ?_, hunbroken⟩
      rw [hroot.blankLinesEnd?_eq hframed htrail hls, ← hlast, hfull]
      rcases List.eq_nil_or_concat' lines with rfl | ⟨init, newline, rfl⟩
      · exact (hroot.chain.stop_eq hls).symm
      · have hline : root.subtokens = (before ++ trailing :: init) ++ newline :: behind := by
          rw [hls]
          simp
        rw [List.getLast?_concat, Option.map_some, Option.getD_some, hroot.chain.stop_eq hline]
        simp

/-- The text that goes with a member behind a brace starts behind what trails the brace. -/
theorem Clean.exists_before (hroot : Clean root) {n first last brace : Site}
    (hn : n ∈ root.subtree) (hframed : Framed n first last)
    (hprev : first.prevSignificant? = some brace) :
    ∃ left run right, root.subtokens = left ++ brace :: (run ++ first :: right) ∧
      (∀ t ∈ run, t.isTrivia = true) ∧
      widthOfSites (left ++ brace :: trailingPart run) = n.fullSpan.start := by
  obtain ⟨back, ahead, hls⟩ := leaves_of_mem.1 root.tree root.origin root.start root.above n hn
  obtain ⟨others, hheads⟩ := hframed.heads
  rw [← leaves_eq, hroot.leaves, hheads] at hls
  have hsplit : root.subtokens = back ++ first :: (others ++ ahead) := by rw [hls]; simp
  rw [prevSignificant?, hroot.chain.before back first _ hsplit] at hprev
  obtain ⟨hbrace, run, left, hback, hrun⟩ := List.find?_eq_some_iff_append.1 hprev
  have hback : back = left.reverse ++ brace :: run.reverse := by
    rw [← List.reverse_reverse back, hback]
    simp
  have htrivia : ∀ t ∈ run.reverse, t.isTrivia = true := by
    intro t ht
    simpa [isSignificant] using hrun t (List.mem_reverse.1 ht)
  subst hback
  refine ⟨left.reverse, run.reverse, others ++ ahead, by rw [hsplit]; simp, htrivia, ?_⟩
  have hlead : first.leadingTrivia = leadingPart run.reverse :=
    hroot.chain.leadingTrivia_next hsplit hbrace htrivia hframed.significant.1
  have hrow : root.subtokens = (left.reverse ++ brace :: trailingPart run.reverse) ++
      (first.leadingTrivia ++ first :: (others ++ ahead)) := by
    rw [hsplit, hlead]
    conv_lhs => rw [← trailingPart_append_leadingPart run.reverse]
    simp
  have hstart := hroot.chain.leadingSpan_start hrow
  have hle := (hroot.chain.owned_around hroot.ends hsplit hframed.significant.1).1
  rw [fullSpan, hframed.firstSignificant, hframed.lastSignificant, hframed.span_eq]
  simp only [← hstart]
  omega

/-! ## The row of tokens that is left -/

/-- Cuts of a row at one place are the same but for tokens without text. -/
theorem Tree.solid_of_width {front behind before after : Stored}
    (h : front ++ behind = before ++ after) (hwidth : widthOf front = widthOf before) :
    solid behind = solid after := by
  have hnone {more : Stored} {width : Nat} (h : width + widthOf more = width) : solid more = [] :=
    solid_eq_nil (by omega)
  rcases List.append_eq_append_iff.1 h with ⟨more, rfl, rfl⟩ | ⟨more, rfl, rfl⟩
  · rw [widthOf_append] at hwidth
    rw [solid_append, hnone hwidth.symm, List.nil_append]
  · rw [widthOf_append] at hwidth
    rw [solid_append, hnone hwidth, List.nil_append]

/-- A run of trivia ends where it does without the tokens that have no text, if there is only one
such token, at the end, and it is not trivia. -/
theorem Tree.takeWhile_solid {xs : Stored} (hends : xs.Pairwise (fun x _ => x.2 ≠ ""))
    (htrivia : ∀ x ∈ xs, x.1.isTrivia = true → x.2 ≠ "") :
    (solid xs).takeWhile (·.1.isTrivia) = xs.takeWhile (·.1.isTrivia) := by
  induction xs with
  | nil => rfl
  | cons x xs ih =>
      obtain ⟨hfirst, hrest⟩ := List.pairwise_cons.1 hends
      have hih := ih hrest fun y hy => htrivia y (List.mem_cons_of_mem x hy)
      by_cases hx : x.2 = ""
      · obtain rfl : xs = [] := List.eq_nil_iff_forall_not_mem.2 fun y hy => hfirst y hy hx
        have hkind : x.1.isTrivia = false :=
          Bool.eq_false_iff.2 fun h => htrivia x List.mem_cons_self h hx
        simp [solid, hx, hkind]
      · have hsolid : solid (x :: xs) = x :: solid xs := by simp [solid, hx]
        rw [hsolid, List.takeWhile_cons, List.takeWhile_cons, hih]

/-- Tokens with text that are as wide as the front of a row are a part of that front. -/
theorem Tree.isPrefix_of_width {front behind before after : Stored}
    (h : front ++ behind = before ++ after) (hwidth : widthOf front = widthOf before)
    (hsolid : ∀ x ∈ front, x.2 ≠ "") : ∃ more, before = front ++ more ∧ widthOf more = 0 := by
  rcases List.append_eq_append_iff.1 h with ⟨more, rfl, -⟩ | ⟨more, rfl, -⟩
  · rw [widthOf_append] at hwidth
    exact ⟨more, rfl, by omega⟩
  · rw [widthOf_append] at hwidth
    have hempty : solid more = [] := solid_eq_nil (by omega)
    rw [solid_eq_self fun x hx => hsolid x (List.mem_append_right _ hx)] at hempty
    subst hempty
    exact ⟨[], by simp, rfl⟩

/-- What is left of a row once a cut is taken away: the tokens before the cut, and behind them the
trivia that stood behind the cut, whichever tokens without text went with it. -/
theorem Clean.exists_left (hroot : Clean root) (hregular : root.tree.Regular) {removed : Span}
    {ys : Stored} (hys : Swapped 0 removed.start removed.stop [] root.tree.tokens ys)
    {front back ahead behind : List Site} (hfront : root.subtokens = front ++ back)
    (hback : back ≠ []) (hstart : widthOfSites front = removed.start)
    (hbehind : root.subtokens = ahead ++ behind) (hstop : widthOfSites ahead = removed.stop) :
    ∃ rest, ys = front.map Site.stored ++ rest ∧
      rest.takeWhile (·.1.isTrivia) = (behind.takeWhile Site.isTrivia).map Site.stored := by
  obtain ⟨before, cut, after, rest, hcut, rfl, hrest, hsolid⟩ := hroot.cut_of_swapped hys
  obtain ⟨hends, htrivia⟩ := hregular.ends_solid
  have htokens := hroot.tokens_eq
  have htoken : ∀ t ∈ root.subtokens, t.isToken = true := fun t ht => (List.mem_filter.1 ht).2
  have hwidth (ls : List Site) (hls : ls ⊆ root.subtokens) :
      widthOf (ls.map Site.stored) = widthOfSites ls := widthOf_stored fun t ht => htoken t (hls ht)
  obtain ⟨last, hlast⟩ := List.exists_mem_of_ne_nil back hback
  have hsolidFront : ∀ x ∈ front.map Site.stored, x.2 ≠ "" := by
    intro x hx
    rw [htokens, hfront, List.map_append] at hends
    exact (List.pairwise_append.1 hends).2.2 x hx last.stored (List.mem_map_of_mem hlast)
  have hstarts : front.map Site.stored ++ back.map Site.stored =
      before.map Site.stored ++ (cut ++ after).map Site.stored := by
    rw [← List.map_append, ← List.map_append, ← hfront, ← hcut.tokens]
  have hstops : (before ++ cut).map Site.stored ++ after.map Site.stored =
      ahead.map Site.stored ++ behind.map Site.stored := by
    rw [← List.map_append, ← List.map_append, List.append_assoc, ← hcut.tokens, ← hbehind]
  -- the cut starts behind the tokens in front of it, up to tokens without text
  obtain ⟨more, hmore, hnone⟩ : ∃ more, before.map Site.stored = front.map Site.stored ++ more ∧
      widthOf more = 0 := by
    refine isPrefix_of_width hstarts ?_ hsolidFront
    rw [hwidth front (by rw [hfront]; exact List.subset_append_left _ _),
      hwidth before (by rw [hcut.tokens]; exact List.subset_append_left _ _), hstart, hcut.start]
  have hsame : Tree.solid (more ++ rest) = Tree.solid (behind.map Site.stored) := by
    rw [solid_append, solid_eq_nil hnone, List.nil_append, hsolid]
    refine solid_of_width hstops ?_
    rw [hwidth _ (by rw [hcut.tokens, ← List.append_assoc]; exact List.subset_append_left _ _),
      hwidth ahead (by rw [hbehind]; exact List.subset_append_left _ _), widthOfSites_append,
      hcut.start, hcut.stop, hstop]
  have hleft : (more ++ rest).Sublist root.tree.tokens := by
    refine (List.sublist_append_right (front.map Site.stored) _).trans ?_
    rw [← List.append_assoc, ← hmore, htokens, hcut.tokens, List.map_append]
    exact (List.Sublist.refl _).append hrest
  have hkept : (behind.map Site.stored).Sublist root.tree.tokens := by
    rw [htokens, hbehind, List.map_append]
    exact List.sublist_append_right _ _
  refine ⟨more ++ rest, by rw [hmore]; simp, ?_⟩
  rw [← takeWhile_solid (hends.sublist hleft) fun x hx => htrivia x (hleft.subset hx), hsame,
    takeWhile_solid (hends.sublist hkept) fun x hx => htrivia x (hkept.subset hx)]
  exact takeWhile_stored fun t ht => htoken t (by rw [hbehind]; simp [ht])

/-- **No blank line is left behind the brace.**  The tokens that the removal of a member leaves are
those up to the brace, the brace, and a row that starts with no blank line. -/
theorem Clean.left_behind_brace (hroot : Clean root) (hregular : root.tree.Regular)
    {n first last brace : Site} (hn : n ∈ root.subtree) (hframed : Framed n first last)
    (hprev : first.prevSignificant? = some brace) {removed : Span}
    (hremoved : removed = ⟨n.fullSpan.start, (Editor.blankLinesEnd? n).getD n.fullSpan.stop⟩)
    {ys : Stored} (hys : Swapped 0 removed.start removed.stop [] root.tree.tokens ys) :
    ∃ left right rest, root.subtokens = left ++ brace :: right ∧
      ys = left.map Site.stored ++ brace.stored :: rest ∧
      runKind ((rest.takeWhile (·.1.isTrivia)).map Prod.fst) ≠ .blankLine := by
  subst hremoved
  obtain ⟨left, run, right, hsplit, hrun, hstart⟩ := hroot.exists_before hn hframed hprev
  obtain ⟨ahead, behind, hbehind, hstop, hunbroken⟩ := hroot.exists_behind hn hframed
  have hrow : root.subtokens = (left ++ brace :: trailingPart run) ++
      (leadingPart run ++ first :: right) := by
    rw [hsplit]
    conv_lhs => rw [← trailingPart_append_leadingPart run]
    simp
  obtain ⟨rest, rfl, hrest⟩ := hroot.exists_left hregular hys hrow (by simp) hstart hbehind hstop
  have htrailing : ∀ x ∈ (trailingPart run).map Site.stored, x.1.isTrivia = true := by
    refine trivia_stored (fun t ht => hrun t (trailingPart_subset run ht)) fun t ht => ?_
    exact (List.mem_filter.1 (show t ∈ root.subtokens by rw [hrow]; simp [ht])).2
  refine ⟨left, run ++ first :: right, (trailingPart run).map Site.stored ++ rest, hsplit,
    by simp, ?_⟩
  rw [List.takeWhile_append_of_pos htrailing, hrest, List.map_append, map_fst_stored,
    map_fst_stored]
  exact runKind_ne_blankLine (count_trailingPart run) hunbroken

/-! ## Gaps in the new tree -/

namespace Site

variable {origin : Nat} {t : Tree} {left right : List Site} {a b : Site}

/-- The site of a token among the tokens of a tree. -/
theorem exists_of_tokens (origin : Nat) {front rest : Stored} {x : Kind × String}
    (h : t.tokens = front ++ x :: rest) : ∃ left s right,
      (top origin t).subtokens = left ++ s :: right ∧ s.stored = x ∧
      left.map stored = front ∧ right.map stored = rest := by
  have hstored : (top origin t).subtokens.map stored = front ++ x :: rest :=
    (map_stored_subtokens _).trans h
  obtain ⟨left, others, hsplit, hleft, hothers⟩ := List.map_eq_append_iff.1 hstored
  obtain ⟨s, right, rfl, hs, hright⟩ := List.map_eq_cons_iff.1 hothers
  exact ⟨left, s, right, hsplit, hs, hleft, hright⟩

/-- If there is a gap behind a token, its trivia is the run behind the token: the walk does not end
before the next word. -/
theorem trivia_of_betweenTokens? (hls : (top origin t).subtokens = left ++ a :: right) {g : Gap}
    (h : Gap.betweenTokens? a b = some g) : g.trivia = right.takeWhile isTrivia := by
  obtain ⟨next, hnext, h⟩ := Option.bind_eq_some_iff.1 h
  obtain ⟨-, -, h⟩ := Option.bind_eq_some_iff.1 h
  obtain rfl := Option.some.inj h
  rw [← filter_leaves] at hls
  obtain ⟨front, others, hleaves, -, hothers⟩ := List.filter_eq_append_iff.1 hls
  obtain ⟨between, back, rfl, -, -, hright⟩ := List.filter_eq_cons_iff.1 hothers
  rw [← List.append_assoc] at hleaves
  have hwalk : a.tokensAfter = back.takeWhile isToken := by
    rw [tokensAfter, (walk_eq hleaves).2.2]
  rw [nextSignificant?, hwalk] at hnext
  obtain ⟨hword, run, more, hrun, htrivia⟩ := List.find?_eq_some_iff_append.1 hnext
  have htrivia : ∀ r ∈ run, r.isTrivia = true := fun r hr => by
    simpa [isSignificant] using htrivia r hr
  obtain ⟨missed, hmissed⟩ := takeWhile_isPrefix_filter isToken back
  show a.triviaAfter = _
  rw [triviaAfter, hwalk, ← hright, ← hmissed, hrun, List.append_assoc, List.cons_append,
    takeWhile_trivia_append htrivia hword, takeWhile_trivia_append htrivia hword]

end Site

/-! ## Removals -/

namespace Removal

variable {d : Document} {n : Site} {e : Editor} {stamp : Nat} {o : Outcome}

theorem commentsAmong_eq (hroot : Clean d.root) (hregular : d.tree.Regular) {s : Splice}
    (hclears : Clears d n s) (ho : Patch.apply ⟨d.version, [s]⟩ d stamp = .ok o) :
    (commentsAmong o.document.root.subtokens).map Site.stored =
      ((commentsAmong d.root.subtokens).filter (fun t => !n.span.covers t.span)).map Site.stored := by
  rw [← hclears.commentsOf_eq hroot (swapped_of_apply hregular.isNode hclears.ordered ho),
    ← commentsOf_stored, map_stored_subtokens]
  rfl

/-- What stands behind the brace once a member is gone that came first behind it. -/
theorem exists_brace (hroot : Clean d.root) (hregular : d.tree.Regular)
    (hn : n ∈ d.root.subnodes) (he : Editor.removeMember ⟨d, []⟩ n = .ok e)
    (ho : e.patch.apply d stamp = .ok o) {first brace : Site}
    (hfirst : n.firstSignificant? = some first) (hprev : first.prevSignificant? = some brace)
    (hbrace : brace.kind = .lBrace) : ∃ left brace' right,
      o.document.root.subtokens = left ++ brace' :: right ∧ brace'.start = brace.start ∧
      brace'.stored = brace.stored ∧
      runKind ((right.takeWhile Site.isTrivia).map Site.kind) ≠ .blankLine := by
  obtain ⟨rfl, hclears⟩ := removeMember_clears hroot hn he
  obtain ⟨hmem, hnode⟩ := List.mem_filter.1 hn
  have hfollows : Editor.followsOpenBrace n = true := by
    simp [Editor.followsOpenBrace, hfirst, hprev, hbrace]
  have hne : n ≠ d.root := by
    rintro rfl
    rw [hroot.not_followsOpenBrace hnode] at hfollows
    cases hfollows
  obtain ⟨first', last, hframed⟩ := hroot.framed n hn hne
  obtain rfl : first' = first := Option.some.inj (hframed.firstSignificant.symm.trans hfirst)
  obtain ⟨left, right, rest, hls, htokens, hkind⟩ := hroot.left_behind_brace hregular hmem hframed
    hprev (by rw [memberStop, if_pos hfollows])
    (swapped_of_apply hregular.isNode hclears.ordered ho)
  obtain ⟨left', brace', right', hls', hstored, hleft, hright⟩ :=
    exists_of_tokens o.document.origin htokens
  have htoken : ∀ t ∈ left' ++ brace' :: right', t.isToken = true := fun t ht =>
    (List.mem_filter.1 (hls' ▸ ht)).2
  refine ⟨left', brace', right', hls', ?_, hstored, ?_⟩
  · rw [start_of_subtokens hls', start_of_subtokens hls,
      ← widthOf_stored fun t ht => htoken t (List.mem_append_left _ ht), hleft,
      widthOf_stored fun t ht => (List.mem_filter.1
        (show t ∈ d.root.subtokens by rw [hls]; simp [ht])).2]
  · rwa [← hright, takeWhile_stored fun t ht => htoken t (by simp [ht]), map_fst_stored] at hkind

end Removal

/-- **A removal drops no comment outside the node, and leaves no blank line behind a brace.**  In a
text that parses without errors, let a node be removed, under any policy or as a member, and let the
patch go through.  Then the comments of the new tree are those of the old one outside the span of the
node, in their order.  If the node was removed as a member and an opening brace came before it, then
in the new tree that brace stands where it stood, and what separates it from the next word is no blank
line. -/
theorem Document.comments_of_removal {version : Nat} {text : String}
    (hclean : (Document.ofText version text).errors = []) {n : Site}
    (hn : n ∈ (Document.ofText version text).root.subnodes) {e : Editor}
    (he : (∃ policy, Editor.removeNode ⟨Document.ofText version text, []⟩ n policy = .ok e) ∨
      Editor.removeMember ⟨Document.ofText version text, []⟩ n = .ok e)
    {stamp : Nat} {o : Outcome} (ho : e.patch.apply (Document.ofText version text) stamp = .ok o) :
    (commentsAmong o.document.root.subtokens).map Site.stored =
      ((commentsAmong (Document.ofText version text).root.subtokens).filter
        (fun t => !n.span.covers t.span)).map Site.stored ∧
    (Editor.removeMember ⟨Document.ofText version text, []⟩ n = .ok e → ∀ first brace,
      n.firstSignificant? = some first → first.prevSignificant? = some brace →
      brace.kind = .lBrace → ∃ left brace' right,
        o.document.root.subtokens = left ++ brace' :: right ∧ brace'.start = brace.start ∧
        brace'.stored = brace.stored ∧
        (∀ span, (Gap.mk span (right.takeWhile Site.isTrivia)).kind ≠ .blankLine) ∧
        ∀ next g, Gap.betweenTokens? brace' next = some g → g.kind ≠ .blankLine) := by
  have hroot := Document.clean_root hclean
  have hregular : (Document.ofText version text).tree.Regular := parse_regular text
  constructor
  · obtain ⟨policy, he⟩ | he := he
    · obtain ⟨s, rfl, hclears⟩ := Removal.removeNode_clears hroot he
      exact Removal.commentsAmong_eq hroot hregular hclears ho
    · obtain ⟨rfl, hclears⟩ := Removal.removeMember_clears hroot hn he
      exact Removal.commentsAmong_eq hroot hregular hclears ho
  · intro he first brace hfirst hprev hbrace
    obtain ⟨left, brace', right, hls, hstart, hstored, hkind⟩ :=
      Removal.exists_brace hroot hregular hn he ho hfirst hprev hbrace
    refine ⟨left, brace', right, hls, hstart, hstored, fun span => ?_, fun next g hg => ?_⟩
    · rwa [Gap.kind_eq]
    · rwa [Gap.kind_eq, trivia_of_betweenTokens? hls hg]

/-- A field behind a brace, with a comment in it, a blank line and a comment behind it. -/
theorem Document.comments_of_removal_field :
    let d := Document.ofText 1 "class C\n\x7b\n    int a /* in */;\n\n    int b; // kept\n\x7d\n"
    let n := d.firstNode .fieldDeclaration
    ∃ e o brace brace', Editor.removeMember ⟨d, []⟩ n = .ok e ∧ e.patch.apply d 2 = .ok o ∧
      n.firstSignificant?.bind Site.prevSignificant? = some brace ∧ brace.kind = .lBrace ∧
      (commentsAmong o.document.root.subtokens).map Site.stored = [(.lineComment, "// kept")] ∧
      brace'.start = brace.start ∧
      ∀ next g, Gap.betweenTokens? brace' next = some g → g.kind ≠ .blankLine := by
  intro d n
  have houtcome : ((Removal.member n).outcome? d 2).map (fun _ => ()) = some () := by
    decide +kernel
  obtain ⟨e, o, he, ho, -⟩ := Removal.exists_of_outcome? houtcome
  have hbrace : (n.firstSignificant?.bind Site.prevSignificant?).map Site.kind = some .lBrace := by
    decide +kernel
  obtain ⟨brace, hprev, hkind⟩ := Option.map_eq_some_iff.1 hbrace
  obtain ⟨first, hfirst, hprev'⟩ := Option.bind_eq_some_iff.1 hprev
  obtain ⟨hcomments, hmember⟩ := comments_of_removal (by decide +kernel)
    (Document.firstNode_mem (by decide +kernel)) (Or.inr he) ho
  obtain ⟨-, brace', -, -, hstart, -, -, hgap⟩ := hmember he first brace hfirst hprev' hkind
  refine ⟨e, o, brace, brace', he, ho, hprev, hkind, ?_, hstart, hgap⟩
  rw [hcomments]
  decide +kernel

end CodeMend
