import CodeMend.Proofs.Edit.Stitching
import CodeMend.Proofs.Trivia.Spans

/-!
# What a removal leaves of the directives

An operation that takes text away checks the directives of some span, its *scope*, and then takes
away another.  `Accounted` says what is known of its splice once the checks are passed: either the
scope lies around the splice and is balanced, or the directives of the splice without a partner are
written back.

In the second case nothing is orphaned.  In the first, what the splice spares of the scope decides
(`Removal.balanced_tree_iff`).  Nothing is spared where the scope is taken away as a whole.  But
replacing a node and keeping trivia around it spare the trivia, and a directive there may lose its
partner inside the node.
-/

namespace CodeMend

open Tree Site Directive

/-! ## Directives of texts and trees -/

/-- The directives among stored tokens. -/
def directivesOf (xs : Stored) : List Directive := xs.filterMap (fun x => ofKind? x.1)

/-- The directives that reading a text finds. -/
def readDirectives (text : String) : List Directive := directivesOf ((lex text).1.map Token.stored)

/-- The directives of two rows, one behind the other. -/
theorem directivesOf_append (xs ys : Stored) :
    directivesOf (xs ++ ys) = directivesOf xs ++ directivesOf ys :=
  List.filterMap_append

/-- The kinds of directives are those that stand for one. -/
theorem isSome_ofKind? (k : Kind) : (ofKind? k).isSome = k.isDirective := by cases k <;> rfl

/-- Tokens without text do not matter if no directive is without text. -/
theorem directivesOf_solid {xs : Stored} (h : ∀ x ∈ xs, x.1.isDirective = true → x.2 ≠ "") :
    directivesOf (solid xs) = directivesOf xs := by
  induction xs with
  | nil => rfl
  | cons x xs ih =>
      have hih := ih fun y hy => h y (List.mem_cons_of_mem x hy)
      by_cases hx : x.2 = ""
      · have hnone : ofKind? x.1 = none := by
          rw [← Option.not_isSome_iff_eq_none, isSome_ofKind?]
          exact fun hdirective => h x List.mem_cons_self hdirective hx
        simpa [solid, directivesOf, hx, hnone] using hih
      · simp only [solid, directivesOf] at hih
        simp [solid, directivesOf, hx, List.filterMap_cons, hih]

variable {root : Site}

/-- The directives of sites are those of their stored tokens. -/
theorem directivesOf_stored (ls : List Site) :
    directivesOf (ls.map Site.stored) = (directivesAmong ls).map Site.directive := by
  induction ls with
  | nil => rfl
  | cons s ls ih =>
      cases hs : ofKind? s.kind with
      | none =>
          have hdirective : s.kind.isDirective = false := by rw [← isSome_ofKind?, hs]; rfl
          simpa [directivesOf, directivesAmong, Site.stored, hs, hdirective] using ih
      | some d =>
          have hdirective : s.kind.isDirective = true := by rw [← isSome_ofKind?, hs]; rfl
          simpa [directivesOf, directivesAmong, Site.stored, hs, hdirective, Site.directive] using ih

/-- A splice is a cut.  What is left behind it may lose tokens without text, and nothing else. -/
theorem Clean.cut_of_swapped (hroot : Clean root) {removed : Span} {new ys : Stored}
    (h : Swapped 0 removed.start removed.stop new root.tree.tokens ys) :
    ∃ before cut after rest, CutAt root removed before cut after ∧
      ys = before.map Site.stored ++ (new ++ rest) ∧
      rest.Sublist ((cut ++ after).map Site.stored) ∧
      Tree.solid rest = Tree.solid (after.map Site.stored) := by
  obtain ⟨xs, ys, zs, rest, htokens, rfl, hstart, hstop, hrest, hsolid⟩ := h
  rw [hroot.tokens_eq] at htokens
  obtain ⟨before, others, hls, rfl, hothers⟩ := List.map_eq_append_iff.1 htokens
  obtain ⟨cut, after, rfl, rfl, rfl⟩ := List.map_eq_append_iff.1 hothers
  have htoken : ∀ s ∈ before ++ (cut ++ after), s.isToken = true := fun s hs =>
    (List.mem_filter.1 (hls ▸ hs)).2
  rw [Nat.zero_add, widthOf_stored fun s hs => htoken s (by simp [hs])] at hstart
  rw [widthOf_stored fun s hs => htoken s (by simp [hs])] at hstop
  rw [← List.map_append] at hrest
  exact ⟨before, cut, after, rest, ⟨hls, hstart, hstop⟩, rfl, hrest, hsolid⟩

/-- The new directives of a splice stand in the place of those that it takes away. -/
theorem Clean.cutAt_of_swapped (hroot : Clean root) {removed : Span} {new ys : Stored}
    (h : Swapped 0 removed.start removed.stop new root.tree.tokens ys) :
    ∃ before cut after, CutAt root removed before cut after ∧
      directivesOf ys = (directivesAmong before).map Site.directive ++
        (directivesOf new ++ (directivesAmong after).map Site.directive) := by
  obtain ⟨before, cut, after, rest, hcut, rfl, hrest, hsolid⟩ := hroot.cut_of_swapped h
  refine ⟨before, cut, after, hcut, ?_⟩
  have htext : ∀ x ∈ (cut ++ after).map Site.stored, x.1.isDirective = true → x.2 ≠ "" := by
    intro x hx hdirective hempty
    obtain ⟨s, hs, rfl⟩ := List.mem_map.1 hx
    have hmem : s ∈ root.subtokens := by
      rw [hcut.tokens]
      exact List.mem_append_right _ hs
    have hlt := hroot.directive_solid hmem hdirective
    have hwidth := Site.width_of_isToken (List.mem_filter.1 hmem).2
    rw [show s.text = "" from hempty] at hwidth
    simp [Site.stop, Site.span, Span.ofLength, hwidth] at hlt
  have hafter : directivesOf rest = directivesOf (after.map Site.stored) := by
    rw [← directivesOf_solid fun x hx => htext x (hrest.subset hx), hsolid,
      directivesOf_solid fun x hx => htext x (by
        rw [List.map_append]
        exact List.mem_append_right _ hx)]
  rw [directivesOf_append, directivesOf_append, hafter, directivesOf_stored, directivesOf_stored]

/-! ## Members and the blank lines behind them -/

/-- A site of a tree knows the tree. -/
theorem Site.root_of_mem {origin : Nat} {t : Tree} {n : Site} (h : n ∈ (top origin t).subtree) :
    n.root = top origin t := by
  have habove := ancestor_of_mem.1 t origin 0 [] n h
  obtain ⟨inner, hancestors⟩ := ancestors_suffix habove
  rw [Site.root, ← hancestors, List.getLast?_append]
  rfl

/-- Nothing significant comes before the first significant token of a tree. -/
theorem Clean.not_followsOpenBrace (hroot : Clean root) (hnode : root.isNode = true) :
    Editor.followsOpenBrace root = false := by
  have htoken : root.isToken = false := by
    simpa [Site.isNode, Tree.isNode, Site.isToken] using hnode
  cases hfirst : root.firstSignificant? with
  | none => simp [Editor.followsOpenBrace, hfirst]
  | some t =>
      have hprev : t.prevSignificant? = none := by
        rw [firstSignificant?, htoken] at hfirst
        obtain ⟨first, hhead, hfirst⟩ := Option.bind_eq_some_iff.1 hfirst
        obtain ⟨hhead, -⟩ := Option.filter_eq_some_iff.1 hhead
        obtain ⟨others, hls⟩ := List.head?_eq_some_iff.1 hhead
        rw [hroot.leaves] at hls
        split at hfirst
        · next htrivia =>
          -- all tokens before the next significant one are trivia
          obtain ⟨hnext, -⟩ := Option.filter_eq_some_iff.1 hfirst
          rw [nextSignificant?, hroot.chain.after [] first others hls] at hnext
          obtain ⟨-, run, right, rfl, hrun⟩ := List.find?_eq_some_iff_append.1 hnext
          rw [prevSignificant?, hroot.chain.before (first :: run) t right hls, List.find?_eq_none]
          intro r hr
          rcases List.mem_cons.1 (List.mem_reverse.1 hr) with rfl | hr
          · simp [isSignificant, htrivia]
          · simpa using hrun r hr
        · obtain rfl := Option.some.inj hfirst
          rw [prevSignificant?, hroot.chain.before [] first others hls]
          rfl
      simp [Editor.followsOpenBrace, hfirst, hprev]

/-- The row of tokens up to the last one that trails a node, where its full span ends, and what comes
behind. -/
theorem Clean.split_behind (hroot : Clean root) {n first last trailing : Site}
    (hn : n ∈ root.subtree) (hframed : Framed n first last)
    (htrail : last.trailingTrivia.getLast? = some trailing) :
    ∃ before rest, root.subtokens = before ++ trailing :: rest ∧
      n.fullSpan.stop = trailing.stop := by
  obtain ⟨left, right, hls⟩ := leaves_of_mem.1 root.tree root.origin root.start root.above n hn
  obtain ⟨others, hends⟩ := hframed.ends
  rw [← leaves_eq, hroot.leaves, hends] at hls
  have hsplit : root.subtokens = (left ++ others) ++ last :: right := by rw [hls]; simp
  have htrailing := hroot.chain.trailingTrivia_eq hsplit hframed.significant.2
  obtain ⟨init, hinit⟩ := List.getLast?_eq_some_iff.1 htrail
  obtain ⟨rest, hrest⟩ : ∃ rest, right = init ++ trailing :: rest := by
    have hrun := List.takeWhile_append_dropWhile (p := Site.isTrivia) (l := right)
    rw [← trailingPart_append_leadingPart (right.takeWhile Site.isTrivia), ← htrailing,
      hinit] at hrun
    exact ⟨_, by simpa using hrun.symm⟩
  refine ⟨left ++ others ++ last :: init, rest, by rw [hsplit, hrest]; simp, ?_⟩
  have hpairwise := hroot.chain.pairwise
  rw [hsplit, hrest] at hpairwise
  have hlast : last.stop ≤ trailing.start :=
    (List.pairwise_cons.1 (List.pairwise_append.1 hpairwise).2.1).1 trailing (by simp)
  have hle := trailing.start_le_stop
  rw [fullSpan, hframed.firstSignificant, hframed.lastSignificant, hframed.span_eq]
  simp only [trailingSpan, htrail, Option.map_some, Option.getD_some]
  omega

/-- White space and line breaks hold no directive. -/
theorem Clean.directive_before_blanks (hroot : Clean root) {before rest : List Site}
    {trailing newline t : Site} (hls : root.subtokens = before ++ trailing :: rest)
    (hnewline : newline ∈ rest.takeWhile (fun t => t.kind == .newline || t.kind == .whitespace))
    (ht : t ∈ directivesAmong root.subtokens) (hle : t.stop ≤ newline.stop) :
    t.stop ≤ trailing.stop := by
  let blank := fun t : Site => t.kind == .newline || t.kind == .whitespace
  have hblanks := List.takeWhile_append_dropWhile (p := blank) (l := rest)
  obtain ⟨ht, hdirective⟩ := List.mem_filter.1 ht
  have hsolid := hroot.directive_solid ht hdirective
  have hpairwise := hroot.chain.pairwise
  rw [hls] at hpairwise
  obtain ⟨-, hbehind, hfront⟩ := List.pairwise_append.1 hpairwise
  rw [hls, ← hblanks] at ht
  rcases List.mem_append.1 ht with ht | ht
  · exact Nat.le_trans (hfront t ht trailing List.mem_cons_self) trailing.start_le_stop
  rcases List.mem_cons.1 ht with rfl | ht
  · exact Nat.le_refl _
  rcases List.mem_append.1 ht with ht | ht
  · have hkind := List.mem_takeWhile_imp ht
    rcases Bool.or_eq_true_iff.1 hkind with hkind | hkind <;>
    · rw [beq_iff_eq.1 hkind] at hdirective
      cases hdirective
  · have hrest := (List.pairwise_cons.1 hbehind).2
    rw [← hblanks] at hrest
    have hlate := (List.pairwise_append.1 hrest).2.2 newline hnewline t ht
    omega

/-- The blank lines behind a node hold no directive. -/
theorem Clean.blankLinesEnd (hroot : Clean root) {n first last : Site} (hn : n ∈ root.subtree)
    (hframed : Framed n first last) {stop : Nat} (h : Editor.blankLinesEnd? n = some stop) :
    n.fullSpan.stop ≤ stop ∧ ∀ t ∈ directivesAmong root.subtokens,
      t.stop ≤ stop → t.stop ≤ n.fullSpan.stop := by
  simp only [Editor.blankLinesEnd?, hframed.lastSignificant, Option.bind_eq_bind,
    Option.bind_some, Option.bind_eq_some_iff] at h
  obtain ⟨trailing, htrail, newline, hnewline, hstop⟩ := h
  obtain rfl := Option.some.inj hstop
  obtain ⟨before, rest, hls, hfull⟩ := hroot.split_behind hn hframed htrail
  rw [hroot.chain.after _ _ _ hls] at hnewline
  have hmem := (List.mem_filter.1 (List.mem_of_getLast? hnewline)).1
  have hpairwise := hroot.chain.pairwise
  rw [hls] at hpairwise
  have hnext := (List.pairwise_cons.1 (List.pairwise_append.1 hpairwise).2.1).1 newline
    ((List.takeWhile_sublist _).subset hmem)
  rw [hfull]
  exact ⟨Nat.le_trans hnext newline.start_le_stop,
    fun t ht hle => hroot.directive_before_blanks hls hmem ht hle⟩

/-- What is removed with a member goes beyond its full span, but holds no other directives. -/
theorem Clean.directivesIn_member (hroot : Clean root) {n : Site} (hn : n ∈ root.subnodes)
    {stop : Nat} (hstop : stop = if Editor.followsOpenBrace n then
      (Editor.blankLinesEnd? n).getD n.fullSpan.stop else n.fullSpan.stop) :
    n.fullSpan.stop ≤ stop ∧
      root.directivesIn ⟨n.fullSpan.start, stop⟩ = root.directivesIn n.fullSpan := by
  obtain ⟨hmem, hnode⟩ := List.mem_filter.1 hn
  subst hstop
  split
  · next hfollows =>
    cases hend : Editor.blankLinesEnd? n with
    | none => exact ⟨Nat.le_refl _, rfl⟩
    | some stop =>
        have hne : n ≠ root := by
          rintro rfl
          rw [hroot.not_followsOpenBrace hnode] at hfollows
          cases hfollows
        obtain ⟨first, last, hframed⟩ := hroot.framed n hn hne
        obtain ⟨hle, hblank⟩ := hroot.blankLinesEnd hmem hframed hend
        refine ⟨hle, ?_⟩
        rw [hroot.directivesIn_eq, hroot.directivesIn_eq]
        refine List.filter_congr fun t ht => ?_
        cases hdirective : t.kind.isDirective with
        | false => rfl
        | true =>
            have hback := hblank t (List.mem_filter.2 ⟨ht, hdirective⟩)
            rw [Bool.true_and, Bool.true_and, Bool.eq_iff_iff, covers_span_iff, covers_span_iff]
            simp only [Option.getD_some]
            omega
  · exact ⟨Nat.le_refl _, rfl⟩

/-! ## Operations that take text away -/

/-- An operation of the editor that takes text away. -/
inductive Removal where
  | replace (node : Site) (r : Replacement)
  | remove (node : Site) (policy : RemovalPolicy)
  | member (node : Site)
  | delete (span : Span)

namespace Removal

/-- Runs the operation. -/
def run (e : Editor) : Removal → Except EditError Editor
  | replace n r => e.replaceNode n r
  | remove n policy => e.removeNode n policy
  | member n => e.removeMember n
  | delete span => e.deleteSpan span

/-- Nodes are nodes of the tree, new content holds no directive, and spans have their ends in
order. -/
def Fits (root : Site) : Removal → Prop
  | replace n r => n ∈ root.subnodes ∧ directivesOf (tokensAll r.elements) = []
  | remove n _ => n ∈ root.subnodes
  | member n => n ∈ root.subnodes
  | delete span => span.Ordered

/-- The directives in the full span of the node that the operation leaves where they are. -/
def spared (root : Site) : Removal → List Site
  | replace n _ => (root.directivesIn n.fullSpan).filter (fun t => !n.span.covers t.span)
  | remove n policy =>
    (root.directivesIn n.fullSpan).filter
      (fun t => !(Editor.removedSpan policy n.span n.fullSpan).covers t.span)
  | member _ => []
  | delete _ => []

end Removal

/-- What the checks of an operation say of the directives that its splice takes away.  Those of a
span around it are balanced, and some of them may be spared, or those without a partner are written
back. -/
inductive Accounted (root : Site) (s : Splice) : List Site → Prop
  | checked (scope : Span) (hcovers : scope.covers s.span = true)
      (hbalanced : root.unbalancedIn scope = [])
      (hnew : directivesOf (tokensAll s.replacement.elements) = []) :
      Accounted root s ((root.directivesIn scope).filter (fun t => !s.span.covers t.span))
  | kept (hnew : directivesOf (tokensAll s.replacement.elements) =
        (root.unbalancedIn s.span).map Site.directive) :
      Accounted root s []

/-- Where the directives of the splice itself are balanced, none is spared. -/
theorem Accounted.whole (hroot : Clean root) {s : Splice}
    (hbalanced : root.unbalancedIn s.span = [])
    (hnew : directivesOf (tokensAll s.replacement.elements) = []) : Accounted root s [] := by
  have hspared : (root.directivesIn s.span).filter (fun t => !s.span.covers t.span) = [] := by
    rw [hroot.directivesIn_eq]
    refine List.filter_eq_nil_iff.2 fun t ht => ?_
    simp [(Bool.and_eq_true_iff.1 (List.mem_filter.1 ht).2).2]
  exact hspared ▸ Accounted.checked s.span (by simp [Span.covers]) hbalanced hnew

/-- A check that passes has found no orphans. -/
theorem checkOrphans_eq_ok {bounds : Span} {orphans : List Site}
    (h : Editor.checkOrphans bounds orphans = .ok ()) : orphans = [] := by
  unfold Editor.checkOrphans at h
  split at h
  · next hempty => exact List.isEmpty_iff.1 hempty
  · cases h

/-- What is written back are the directives without a partner, and line breaks. -/
theorem directivesOf_keptDirectives {e : Editor} (hroot : Clean e.document.root) (bounds : Span) :
    directivesOf (tokensAll (e.keptDirectives bounds).elements) =
      (e.document.root.unbalancedIn bounds).map Site.directive := by
  have hdirective : ∀ d ∈ e.document.root.unbalancedIn bounds,
      d.isToken = true ∧ d.kind.isDirective = true := by
    intro d hd
    have hmem := mem_of_mem_unbalanced hd
    rw [hroot.directivesIn_eq] at hmem
    obtain ⟨hmem, hcovered⟩ := List.mem_filter.1 hmem
    exact ⟨(List.mem_filter.1 hmem).2, (Bool.and_eq_true_iff.1 hcovered).1⟩
  rw [Editor.keptDirectives]
  generalize e.document.root.unbalancedIn bounds = ds at hdirective ⊢
  induction ds with
  | nil => rfl
  | cons d ds ih =>
      obtain ⟨htoken, hkind⟩ := hdirective d List.mem_cons_self
      have hih := ih fun c hc => hdirective c (List.mem_cons_of_mem d hc)
      have hone := directivesOf_stored [d]
      simp only [directivesAmong, List.filter_cons, hkind, if_true, List.filter_nil, List.map_cons,
        List.map_nil] at hone
      rw [List.flatMap_cons, tokensAll_append, directivesOf_append, hih, List.map_cons, tokensAll,
        Site.tokens_of_isToken htoken, directivesOf_append, hone]
      rfl

namespace Removal

variable {d : Document} {e : Editor}

/-- The directives without a partner of a node are those in its full span. -/
theorem unbalanced_eq_of_mem {n : Site} (hn : n ∈ d.root.subnodes) :
    n.unbalanced = d.root.unbalancedIn n.fullSpan := by
  rw [Site.unbalanced, Site.root_of_mem (List.mem_filter.1 hn).1]
  rfl

/-- Replacing a node checks its full span and takes its span away. -/
theorem replaceNode_accounted {n : Site} {r : Replacement} (hn : n ∈ d.root.subnodes)
    (hr : directivesOf (tokensAll r.elements) = [])
    (h : Editor.replaceNode ⟨d, []⟩ n r = .ok e) :
    ∃ s : Splice, e = ⟨d, [s]⟩ ∧ s.span.Ordered ∧
      Accounted d.root s ((replace n r).spared d.root) := by
  obtain ⟨-, -, h⟩ := bind_eq_ok h
  obtain ⟨_, hbalance, h⟩ := bind_eq_ok h
  cases h
  have hbalanced := checkOrphans_eq_ok hbalance
  rw [unbalanced_eq_of_mem hn] at hbalanced
  exact ⟨_, rfl, n.start_le_stop, .checked n.fullSpan (fullSpan_covers n) hbalanced hr⟩

/-- What is removed with a node lies within its full span. -/
theorem covers_removedSpan (n : Site) (policy : RemovalPolicy) :
    n.fullSpan.covers (Editor.removedSpan policy n.span n.fullSpan) = true ∧
      (Editor.removedSpan policy n.span n.fullSpan).Ordered := by
  have hcovers := covers_span_iff.1 (fullSpan_covers n)
  have hle := n.start_le_stop
  have hspan : n.span = ⟨n.start, n.stop⟩ := rfl
  rw [covers_iff, hspan, Span.Ordered]
  cases policy <;> dsimp only [Editor.removedSpan] <;> omega

/-- Removing a node checks the full span, whatever the policy takes away of it, or writes back
what has no partner. -/
theorem removeNode_accounted (hroot : Clean d.root) {n : Site} {policy : RemovalPolicy}
    (hn : n ∈ d.root.subnodes) (h : Editor.removeNode ⟨d, []⟩ n policy = .ok e) :
    ∃ s : Splice, e = ⟨d, [s]⟩ ∧ s.span.Ordered ∧
      Accounted d.root s ((remove n policy).spared d.root) := by
  obtain ⟨hcovers, hordered⟩ := covers_removedSpan n policy
  obtain ⟨-, -, h⟩ := bind_eq_ok h
  by_cases hpolicy : policy = .keepUnbalancedDirectives
  · -- all of the full span goes, and what has no partner in it comes back
    subst hpolicy
    obtain ⟨-, -, h⟩ := bind_eq_ok h
    obtain ⟨-, -, h⟩ := bind_eq_ok h
    cases h
    refine ⟨_, rfl, hordered, ?_⟩
    have hspared : (remove n .keepUnbalancedDirectives).spared d.root = [] := by
      rw [spared, hroot.directivesIn_eq]
      refine List.filter_eq_nil_iff.2 fun t ht => ?_
      simp [Editor.removedSpan, (Bool.and_eq_true_iff.1 (List.mem_filter.1 ht).2).2]
    rw [hspared]
    exact .kept (directivesOf_keptDirectives hroot n.fullSpan)
  · simp only [beq_iff_eq, hpolicy, if_false] at h
    obtain ⟨_, hbalance, h⟩ := bind_eq_ok h
    obtain ⟨-, -, h⟩ := bind_eq_ok h
    cases h
    have hbalanced := checkOrphans_eq_ok hbalance
    rw [unbalanced_eq_of_mem hn] at hbalanced
    exact ⟨_, rfl, hordered, .checked n.fullSpan hcovers hbalanced rfl⟩

/-- Removing a member takes blank lines with it, which hold no directive. -/
theorem removeMember_accounted (hroot : Clean d.root) {n : Site} (hn : n ∈ d.root.subnodes)
    (h : Editor.removeMember ⟨d, []⟩ n = .ok e) :
    ∃ s : Splice, e = ⟨d, [s]⟩ ∧ s.span.Ordered ∧ Accounted d.root s ((member n).spared d.root) := by
  obtain ⟨-, -, h⟩ := bind_eq_ok h
  obtain ⟨_, hbalance, h⟩ := bind_eq_ok h
  obtain ⟨-, -, h⟩ := bind_eq_ok h
  cases h
  have hbalanced := checkOrphans_eq_ok hbalance
  rw [unbalanced_eq_of_mem hn] at hbalanced
  obtain ⟨hle, hdirectives⟩ := hroot.directivesIn_member hn rfl
  refine ⟨_, rfl, ?_, .whole hroot ?_ rfl⟩
  · have hcovers := covers_span_iff.1 (fullSpan_covers n)
    have := n.start_le_stop
    simp only [Span.Ordered]
    omega
  · rw [unbalancedIn, hdirectives]
    exact hbalanced

/-- Deleting a span checks the span itself. -/
theorem deleteSpan_accounted (hroot : Clean d.root) {span : Span} (hspan : span.Ordered)
    (h : Editor.deleteSpan ⟨d, []⟩ span = .ok e) :
    ∃ s : Splice, e = ⟨d, [s]⟩ ∧ s.span.Ordered ∧
      Accounted d.root s ((delete span).spared d.root) := by
  unfold Editor.deleteSpan at h
  dsimp only at h
  split at h
  · cases h
  split at h
  · cases h
  obtain ⟨_, hbalance, h⟩ := bind_eq_ok h
  cases h
  exact ⟨_, rfl, hspan, .whole hroot (checkOrphans_eq_ok hbalance) rfl⟩

/-- **What the checks of an operation say**, one case for each operation. -/
theorem run_accounted (hroot : Clean d.root) {op : Removal} (hfits : op.Fits d.root)
    (h : op.run ⟨d, []⟩ = .ok e) :
    ∃ s : Splice, e = ⟨d, [s]⟩ ∧ s.span.Ordered ∧ Accounted d.root s (op.spared d.root) := by
  cases op with
  | replace n r => exact replaceNode_accounted hfits.1 hfits.2 h
  | remove n policy => exact removeNode_accounted hroot hfits h
  | member n => exact removeMember_accounted hroot hfits h
  | delete span => exact deleteSpan_accounted hroot hfits h

/-- Where no directive of the whole text lacks a partner, the text is balanced. -/
theorem balanced_of_unbalancedIn (hroot : Clean root) (h : root.unbalancedIn root.span = []) :
    Balanced ((directivesAmong root.subtokens).map Site.directive) := by
  have hall : root.directivesIn root.span = directivesAmong root.subtokens := by
    rw [hroot.directivesIn_eq, hroot.span_eq]
    refine List.filter_congr fun t ht => ?_
    have hwithin := hroot.chain.before_cut (List.append_nil _).symm ht
    rw [covers_span_iff.2 ⟨Nat.zero_le _, hwithin⟩, Bool.and_true]
  rw [← hall]
  exact (unbalanced_eq_nil_iff Site.directive Site.start _).1 h

/-- What applying a patch of one splice does to the tokens. -/
theorem swapped_of_apply (hnode : d.tree.isNode = true) {s : Splice} (hordered : s.span.Ordered)
    {stamp : Nat} {o : Outcome} (h : Patch.apply ⟨d.version, [s]⟩ d stamp = .ok o) :
    Swapped 0 s.span.start s.span.stop (tokensAll s.replacement.elements) d.tree.tokens
      o.document.tree.tokens := by
  obtain ⟨hwithin, hsplice, -⟩ := Patch.apply_single h
  have hswapped := (splice_exact hnode s hordered hwithin).sound [o.document.tree]
    (by rw [hsplice]; rfl)
  rwa [show tokensAll [o.document.tree] = o.document.tree.tokens by simp [tokensAll]] at hswapped

/-- **What is spared decides**: the new tree of a balanced text is balanced if and only if the
directives that the operation spares in the full span of its node are. -/
theorem balanced_tree_iff (hroot : Clean d.root) (hnode : d.tree.isNode = true)
    (hbalanced : d.root.unbalancedIn d.root.span = []) {op : Removal} (hfits : op.Fits d.root)
    (he : op.run ⟨d, []⟩ = .ok e) {stamp : Nat} {o : Outcome}
    (ho : e.patch.apply d stamp = .ok o) :
    Balanced (directivesOf o.document.tree.tokens) ↔
      Balanced ((op.spared d.root).map Site.directive) := by
  obtain ⟨s, rfl, hordered, haccounted⟩ := run_accounted hroot hfits he
  obtain ⟨before, cut, after, hcut, hdirectives⟩ :=
    hroot.cutAt_of_swapped (swapped_of_apply hnode hordered ho)
  have hwhole := balanced_of_unbalancedIn hroot hbalanced
  rw [hdirectives]
  generalize op.spared d.root = spared at haccounted
  cases haccounted with
  | checked scope hcovers hscope hnew =>
      rw [hnew, List.nil_append, ← List.map_append]
      exact hcut.balanced_iff hroot hcovers hwhole hscope
  | kept hnew =>
      rw [hnew, ← List.map_append, ← List.map_append]
      exact iff_of_true (hcut.balanced_kept hroot hwhole) (by decide)

end Removal

/-- **When a removal orphans no directive.**  In a text that parses without errors and is balanced,
let an operation that takes text away go through.  Then the new tree is balanced if and only if the
directives that the operation spares in the full span of its node are, and so is the new text if
reading it finds the paired directives of the tree. -/
theorem balanced_iff_spared (version stamp : Nat) (text : String) (op : Removal) (e : Editor)
    (o : Outcome) (hclean : (Document.ofText version text).errors = [])
    (hbalanced : (Document.ofText version text).root.unbalancedIn
      (Document.ofText version text).root.span = [])
    (hfits : op.Fits (Document.ofText version text).root)
    (he : op.run ⟨Document.ofText version text, []⟩ = .ok e)
    (ho : e.patch.apply (Document.ofText version text) stamp = .ok o) :
    (Balanced (directivesOf o.document.tree.tokens) ↔
      Balanced ((op.spared (Document.ofText version text).root).map Site.directive)) ∧
    ((readDirectives o.document.text).filter isPaired =
        (directivesOf o.document.tree.tokens).filter isPaired →
      (Balanced (readDirectives o.document.text) ↔
        Balanced ((op.spared (Document.ofText version text).root).map Site.directive))) := by
  have hroot := Document.clean_root hclean
  have hnode : (Document.ofText version text).tree.isNode = true := by
    obtain ⟨cs, htree, -⟩ := parse_clean hclean
    show (parse text).1.isNode = true
    rw [htree]
    rfl
  have htree := Removal.balanced_tree_iff hroot hnode hbalanced hfits he ho
  refine ⟨htree, fun hread => ?_⟩
  rw [← htree, ← balanced_filter_isPaired, hread, balanced_filter_isPaired]

/-- The first node of a kind. -/
def Document.firstNode (d : Document) (k : Kind) : Site :=
  (d.root.subnodes.find? (·.kind == k)).getD d.root

/-- The first node of a kind is a node of the document, if there is one. -/
theorem Document.firstNode_mem {d : Document} {k : Kind}
    (h : (d.root.subnodes.find? (·.kind == k)).isSome = true) :
    d.firstNode k ∈ d.root.subnodes := by
  obtain ⟨n, hn⟩ := Option.isSome_iff_exists.1 h
  rw [firstNode, hn, Option.getD_some]
  exact List.mem_of_find?_eq_some hn

/-- Runs an operation and applies what it has collected. -/
def Removal.outcome? (d : Document) (stamp : Nat) (op : Removal) : Option Outcome :=
  (op.run ⟨d, []⟩ >>= fun e => e.patch.apply d stamp).toOption

/-- What is computed from an operation comes from a run and a patch that went through. -/
theorem Removal.exists_of_outcome? {d : Document} {stamp : Nat} {op : Removal} {α : Type}
    {f : Outcome → α} {a : α} (h : (op.outcome? d stamp).map f = some a) :
    ∃ e o, op.run ⟨d, []⟩ = .ok e ∧ e.patch.apply d stamp = .ok o ∧ f o = a := by
  obtain ⟨o, ho, hf⟩ := Option.map_eq_some_iff.1 h
  have hok : (op.run ⟨d, []⟩ >>= fun e => e.patch.apply d stamp) = .ok o := by
    rw [outcome?] at ho
    cases hresult : (op.run ⟨d, []⟩ >>= fun e => e.patch.apply d stamp) with
    | error reason => rw [hresult] at ho; cases ho
    | ok o' => rw [hresult] at ho; exact congrArg _ (Option.some.inj ho)
  obtain ⟨e, he, ho⟩ := bind_eq_ok hok
  exact ⟨e, o, he, ho, hf⟩

/-- A region that leads the field to remove is spared, and it is balanced. -/
theorem balanced_iff_spared_region :
    let d := Document.ofText 1 "class C\n\x7b\n#region x\n#endregion\n    int a;\n\x7d\n"
    let op := Removal.remove (d.firstNode .fieldDeclaration) .keepExteriorTrivia
    (op.spared d.root).map Site.directive = [.regionOpen, .regionClose] ∧
      ∃ e o, op.run ⟨d, []⟩ = .ok e ∧ e.patch.apply d 2 = .ok o ∧
        Balanced (readDirectives o.document.text) := by
  intro d op
  have hspared : (op.spared d.root).map Site.directive = [.regionOpen, .regionClose] := by
    decide +kernel
  have houtcome : (op.outcome? d 2).map (fun o =>
      (readDirectives o.document.text, directivesOf o.document.tree.tokens)) =
        some ([.regionOpen, .regionClose], [.regionOpen, .regionClose]) := by decide +kernel
  obtain ⟨e, o, he, ho, hdirectives⟩ := Removal.exists_of_outcome? houtcome
  obtain ⟨hread, htree⟩ := Prod.mk.inj hdirectives
  refine ⟨hspared, e, o, he, ho, ?_⟩
  have hiff := balanced_iff_spared 1 2 _ op e o (by decide +kernel)
    (List.isEmpty_iff.1 (by decide +kernel)) (Document.firstNode_mem (by decide +kernel)) he ho
  refine (hiff.2 (by rw [hread, htree])).2 ?_
  rw [hspared]
  decide

/-- **A removal can orphan a directive.**  The full span of the method holds both halves of the
conditional and is checked, but only the second half lies in the span that is removed. -/
theorem not_balanced_read : ¬ ∀ (version stamp : Nat) (text : String) (op : Removal) (e : Editor)
    (o : Outcome), (Document.ofText version text).errors = [] →
      (Document.ofText version text).root.unbalancedIn
        (Document.ofText version text).root.span = [] →
      op.Fits (Document.ofText version text).root →
      op.run ⟨Document.ofText version text, []⟩ = .ok e →
      e.patch.apply (Document.ofText version text) stamp = .ok o →
      Balanced (readDirectives o.document.text) := by
  intro h
  let text := "class C\n\x7b\n#if A\n    void M()\n    \x7b\n#endif\n    \x7d\n\x7d\n"
  let d := Document.ofText 1 text
  let op := Removal.remove (d.firstNode .methodDeclaration) .keepExteriorTrivia
  have houtcome : (op.outcome? d 2).map (fun o => o.document.text) =
      some "class C\n\x7b\n#if A\n    \n\x7d\n" := by decide +kernel
  obtain ⟨e, o, he, ho, htext⟩ := Removal.exists_of_outcome? houtcome
  have hbalanced := h 1 2 text op e o (by decide +kernel) (List.isEmpty_iff.1 (by decide +kernel))
    (Document.firstNode_mem (by decide +kernel)) he ho
  rw [htext] at hbalanced
  exact absurd hbalanced (by decide +kernel)

-- Without the line break before it a directive is not read as one, though the tree still holds it.
example :
    ((Removal.delete ⟨20, 21⟩).outcome?
        (Document.ofText 1 "class C\n\x7b\n    int a;\n#if A\n#endif\n    int b;\n\x7d\n") 2).map
      (fun o => (directivesOf o.document.tree.tokens, readDirectives o.document.text)) =
    some ([.ifOpen, .ifClose], [.ifClose]) := by
  decide +kernel

end CodeMend
