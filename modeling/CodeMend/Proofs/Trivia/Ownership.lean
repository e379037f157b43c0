import CodeMend.Proofs.Parser.Lossless
import CodeMend.Proofs.Syntax.Sites
import CodeMend.Trivia.Ownership
import Mathlib.Data.List.Nodup
import Mathlib.Data.List.Pairwise

/-!
# Every piece of trivia has one owner

In a tree without empty nodes the walks from token to token go through the list of all tokens
(`Chain`).  There, the trivia behind a token up to its first line break and the trivia that leads the
next token make up all that lies between the two, so the tokens with what they own are the whole list
(`Chain.owned`).  Full spans are made of what is owned and so do not overlap either.

The tree of a text that parses without errors has no empty nodes, and its nodes neither start nor end
with trivia, except that the root may start with some.
-/

namespace CodeMend.Site

open Tree

/-- Tokens in a row, each of which starts where those before it end and finds its neighbours. -/
structure Chain (ls : List Site) : Prop where
  start : ∀ left s right, ls = left ++ s :: right → s.start = widthOfSites left
  before : ∀ left s right, ls = left ++ s :: right → s.tokensBefore = left.reverse
  after : ∀ left s right, ls = left ++ s :: right → s.tokensAfter = right

/-- A token and the trivia it owns. -/
def owned (s : Site) : List Site := s.leadingTrivia ++ s :: s.trailingTrivia

variable {ls : List Site}

/-! ## What lies between two tokens -/

/-- Trivia between two tokens trails the first one up to a line break, and leads the second one
from there. -/
theorem trailingPart_append_leadingPart (run : List Site) :
    trailingPart run ++ leadingPart run = run := by
  fun_induction trailingPart run with
  | case1 => rfl
  | case2 t ts hbreak => simp [leadingPart, hbreak]
  | case3 t ts hbreak ih => simp [leadingPart, hbreak, ih]

/-- What is significant is no trivia. -/
theorem isTrivia_of_isSignificant {s : Site} (h : s.isSignificant = true) : s.isTrivia = false := by
  simpa [isSignificant] using h

/-- Among trivia nothing is significant. -/
theorem filter_significant_of_trivia {run : List Site} (h : ∀ t ∈ run, t.isTrivia = true) :
    run.filter isSignificant = [] :=
  List.filter_eq_nil_iff.2 fun t ht => by simp [isSignificant, h t ht]

/-- The trivia before a significant token end there. -/
theorem takeWhile_trivia_append {run rest : List Site} {t : Site}
    (hrun : ∀ r ∈ run, r.isTrivia = true) (ht : t.isSignificant = true) :
    (run ++ t :: rest).takeWhile isTrivia = run := by
  rw [List.takeWhile_append_of_pos hrun, List.takeWhile_cons_of_neg, List.append_nil]
  simp [isTrivia_of_isSignificant ht]

/-- The trivia that trails a token is the first part of what follows it. -/
theorem Chain.trailingTrivia_eq (hchain : Chain ls) {left right : List Site} {t : Site}
    (h : ls = left ++ t :: right) (ht : t.isSignificant = true) :
    t.trailingTrivia = trailingPart (right.takeWhile isTrivia) := by
  rw [trailingTrivia, isTrivia_of_isSignificant ht, triviaAfter, hchain.after left t right h]
  rfl

/-- The trivia before the first significant token leads it. -/
theorem Chain.leadingTrivia_first (hchain : Chain ls) {run right : List Site} {t : Site}
    (h : ls = run ++ t :: right) (hrun : ∀ r ∈ run, r.isTrivia = true)
    (ht : t.isSignificant = true) : t.leadingTrivia = run := by
  have hbefore := hchain.before run t right h
  have hnone : t.prevSignificant? = none := by
    rw [prevSignificant?, hbefore, List.find?_eq_none]
    intro r hr
    simp [isSignificant, hrun r (List.mem_reverse.1 hr)]
  have hall : run.reverse.takeWhile isTrivia = run.reverse :=
    List.takeWhile_eq_self_iff.2 fun r hr => hrun r (List.mem_reverse.1 hr)
  rw [leadingTrivia, isTrivia_of_isSignificant ht, hnone, triviaBefore, hbefore, hall,
    List.reverse_reverse]
  rfl

/-- Behind a significant token, the trivia before the next one is shared. -/
theorem Chain.leadingTrivia_next (hchain : Chain ls) {left run right : List Site} {p t : Site}
    (h : ls = (left ++ p :: run) ++ t :: right) (hp : p.isSignificant = true)
    (hrun : ∀ r ∈ run, r.isTrivia = true) (ht : t.isSignificant = true) :
    t.leadingTrivia = leadingPart run := by
  have hbefore : t.tokensBefore = run.reverse ++ p :: left.reverse := by
    rw [hchain.before _ t right h]
    simp
  have hrun' : ∀ r ∈ run.reverse, r.isTrivia = true := fun r hr => hrun r (List.mem_reverse.1 hr)
  have hsome : t.prevSignificant?.isNone = false := by
    rw [prevSignificant?, hbefore, Option.isNone_eq_false_iff, List.find?_isSome]
    exact ⟨p, by simp, hp⟩
  rw [leadingTrivia, isTrivia_of_isSignificant ht, hsome, triviaBefore, hbefore,
    takeWhile_trivia_append hrun' hp, List.reverse_reverse]
  rfl

/-! ## The partition -/

/-- The next significant token of a list, with the trivia before it. -/
theorem split_significant {right : List Site}
    (hlast : ∀ s ∈ right.getLast?, s.isSignificant = true) (hne : right ≠ []) :
    ∃ run t rest, right = run ++ t :: rest ∧ (∀ r ∈ run, r.isTrivia = true) ∧
      t.isSignificant = true ∧ ∀ s ∈ rest.getLast?, s.isSignificant = true := by
  have hsplit := List.takeWhile_append_dropWhile (p := isTrivia) (l := right)
  have hrun : ∀ r ∈ right.takeWhile isTrivia, r.isTrivia = true := fun r hr =>
    List.mem_takeWhile_imp hr
  cases hdrop : right.dropWhile isTrivia with
  | nil =>
      -- the last token would be trivia
      rw [hdrop, List.append_nil] at hsplit
      have hmem : right.getLast hne ∈ right.takeWhile isTrivia := by
        rw [hsplit]
        exact List.getLast_mem hne
      have hsignificant := hlast _ (List.getLast?_eq_some_getLast hne)
      rw [isSignificant, hrun _ hmem] at hsignificant
      exact absurd hsignificant (by decide)
  | cons t rest =>
      have ht := List.head?_dropWhile_not isTrivia right
      rw [hdrop] at ht hsplit
      refine ⟨right.takeWhile isTrivia, t, rest, hsplit.symm, hrun, by simpa [isSignificant] using ht,
        fun s hs => hlast s ?_⟩
      rw [← hsplit, List.getLast?_append, List.getLast?_cons, Option.mem_def.1 hs]
      rfl

/-- Behind a significant token, the further ones own what it leaves of the trivia behind it, and the
rest. -/
theorem Chain.owned_after (hchain : Chain ls) (n : Nat) {left right : List Site} {p : Site}
    (hn : right.length ≤ n) (h : ls = left ++ p :: right) (hp : p.isSignificant = true)
    (hlast : ∀ s ∈ right.getLast?, s.isSignificant = true) :
    trailingPart (right.takeWhile isTrivia) ++ (right.filter isSignificant).flatMap Site.owned =
      right := by
  induction n generalizing left right p with
  | zero =>
      obtain rfl : right = [] := List.eq_nil_of_length_eq_zero (by omega)
      rfl
  | succ n ih =>
      by_cases hne : right = []
      · subst hne
        rfl
      obtain ⟨run, t, rest, rfl, hrun, ht, hlast⟩ := split_significant hlast hne
      have hsplit : ls = (left ++ p :: run) ++ t :: rest := by simpa using h
      have hih := ih (by simp at hn; omega) hsplit ht hlast
      have hfilter : (run ++ t :: rest).filter isSignificant = t :: rest.filter isSignificant := by
        rw [List.filter_append, filter_significant_of_trivia hrun, List.filter_cons_of_pos ht,
          List.nil_append]
      rw [takeWhile_trivia_append hrun ht, hfilter, List.flatMap_cons, owned,
        hchain.leadingTrivia_next hsplit hp hrun ht, hchain.trailingTrivia_eq hsplit ht]
      calc trailingPart run ++ (leadingPart run ++ t :: trailingPart (rest.takeWhile isTrivia) ++
              (rest.filter isSignificant).flatMap Site.owned)
          = (trailingPart run ++ leadingPart run) ++ t ::
              (trailingPart (rest.takeWhile isTrivia) ++
                (rest.filter isSignificant).flatMap Site.owned) := by
            simp only [List.append_assoc, List.cons_append]
        _ = run ++ t :: rest := by rw [trailingPart_append_leadingPart, hih]

/-- **Trivia is partitioned**: tokens with what they own, one after the other, are the whole list. -/
theorem Chain.owned (hchain : Chain ls) (hlast : ∀ s ∈ ls.getLast?, s.isSignificant = true) :
    (ls.filter isSignificant).flatMap Site.owned = ls := by
  by_cases hne : ls = []
  · subst hne
    rfl
  obtain ⟨run, t, rest, hls, hrun, ht, hlast⟩ := split_significant hlast hne
  have hrest := hchain.owned_after rest.length (Nat.le_refl _) hls ht hlast
  have hfilter : ls.filter isSignificant = t :: rest.filter isSignificant := by
    rw [hls, List.filter_append, filter_significant_of_trivia hrun, List.filter_cons_of_pos ht,
      List.nil_append]
  rw [hfilter, List.flatMap_cons, Site.owned, hchain.leadingTrivia_first hls hrun ht,
    hchain.trailingTrivia_eq hls ht, List.append_assoc, List.cons_append, hrest, ← hls]

/-- A token stands only once in the row. -/
theorem Chain.nodup (hchain : Chain ls) : ls.Nodup := by
  have hsuffix : ∀ right left, ls = left ++ right → right.Nodup := by
    intro right
    induction right with
    | nil => exact fun _ _ => List.nodup_nil
    | cons s right ih =>
        intro left h
        refine List.nodup_cons.2 ⟨fun hs => ?_, ih (left ++ [s]) (by rw [h]; simp)⟩
        -- standing twice, it would find two different rests behind it
        obtain ⟨between, rest, rfl⟩ := List.append_of_mem hs
        have hafter := hchain.after left s (between ++ s :: rest) h
        have hafter' := hchain.after (left ++ s :: between) s rest (by rw [h]; simp)
        have hlength := congrArg List.length (hafter.symm.trans hafter')
        rw [List.length_append, List.length_cons] at hlength
        omega
  exact hsuffix ls [] rfl

/-- Trivia has one owner. -/
theorem Chain.existsUnique_owner (hchain : Chain ls)
    (hlast : ∀ s ∈ ls.getLast?, s.isSignificant = true) {t : Site} (ht : t ∈ ls)
    (htrivia : t.isTrivia = true) :
    ∃! s, s ∈ ls ∧ s.isSignificant = true ∧ t ∈ s.leadingTrivia ++ s.trailingTrivia := by
  have howned := hchain.owned hlast
  have hmem : ∀ s : Site, s.isSignificant = true →
      (t ∈ s.leadingTrivia ++ s.trailingTrivia ↔ t ∈ s.owned) := by
    intro s hs
    have hne : t ≠ s := by
      rintro rfl
      rw [isTrivia_of_isSignificant hs] at htrivia
      cases htrivia
    simp [Site.owned, hne]
  obtain ⟨s, hs, hts⟩ := List.mem_flatMap.1 (howned.symm ▸ ht)
  obtain ⟨hs, hsignificant⟩ := List.mem_filter.1 hs
  refine ⟨s, ⟨hs, hsignificant, (hmem s hsignificant).2 hts⟩, ?_⟩
  rintro r ⟨hr, hr', htr⟩
  have hdisjoint := (List.nodup_flatMap.1 (howned.symm ▸ hchain.nodup)).2
  have : Std.Symm (Function.onFun List.Disjoint Site.owned) := ⟨fun _ _ h _ ha hb => h hb ha⟩
  by_contra hne
  exact hdisjoint.forall (List.mem_filter.2 ⟨hr, hr'⟩) (List.mem_filter.2 ⟨hs, hsignificant⟩) hne
    ((hmem r hr').1 htr) hts

/-! ## Spans of what is owned -/

/-- Does each site start where those before it end? -/
def Tiled (ls : List Site) : Prop :=
  ∀ left s right, ls = left ++ s :: right → s.start = widthOfSites left

/-- A token ends where those up to it end. -/
theorem Tiled.stop_eq (htiled : Tiled ls) {left right : List Site} {s : Site}
    (h : ls = left ++ s :: right) : s.stop = widthOfSites (left ++ [s]) := by
  rw [widthOfSites_append, widthOfSites_cons, widthOfSites_nil, Nat.add_zero,
    ← htiled left s right h]
  rfl

/-- The same for the tokens of a text. -/
theorem Chain.stop_eq (hchain : Chain ls) {left right : List Site} {s : Site}
    (h : ls = left ++ s :: right) : s.stop = widthOfSites (left ++ [s]) :=
  Tiled.stop_eq hchain.start h

/-- What leads a token starts where the tokens before that end. -/
theorem Chain.leadingSpan_start (hchain : Chain ls) {left right : List Site} {s : Site}
    (h : ls = left ++ (s.leadingTrivia ++ s :: right)) :
    s.leadingSpan.start = widthOfSites left := by
  show ((s.leadingTrivia.head?).map Site.start).getD s.start = _
  cases hlead : s.leadingTrivia with
  | nil =>
      rw [hlead] at h
      exact hchain.start left s right h
  | cons t ts =>
      rw [hlead] at h
      exact hchain.start left t (ts ++ s :: right) h

/-- What trails a token ends where the tokens up to there end. -/
theorem Chain.trailingSpan_stop (hchain : Chain ls) {left right : List Site} {s : Site}
    (h : ls = left ++ s :: (s.trailingTrivia ++ right)) :
    s.trailingSpan.stop = widthOfSites (left ++ s :: s.trailingTrivia) := by
  show ((s.trailingTrivia.getLast?).map Site.stop).getD s.stop = _
  cases htrail : s.trailingTrivia.getLast? with
  | none =>
      have hnil : s.trailingTrivia = [] := by simpa using htrail
      rw [hnil] at h ⊢
      exact hchain.stop_eq h
  | some t =>
      obtain ⟨ts, hts⟩ := List.getLast?_eq_some_iff.1 htrail
      rw [hts] at h ⊢
      have hsplit : ls = (left ++ s :: ts) ++ t :: right := by
        rw [h]
        simp
      simpa using hchain.stop_eq hsplit

/-- What a token owns stands together in the row. -/
theorem Chain.exists_owned (hchain : Chain ls)
    (hlast : ∀ s ∈ ls.getLast?, s.isSignificant = true) {s : Site} (hs : s ∈ ls)
    (hsignificant : s.isSignificant = true) : ∃ first last, ls = first ++ (s.owned ++ last) := by
  obtain ⟨left, right, hsplit⟩ := List.append_of_mem (List.mem_filter.2 ⟨hs, hsignificant⟩)
  refine ⟨left.flatMap Site.owned, right.flatMap Site.owned, ?_⟩
  rw [← List.flatMap_cons, ← List.flatMap_append, ← hsplit, hchain.owned hlast]

/-- What a token owns stands around it. -/
theorem Chain.owned_around (hchain : Chain ls)
    (hlast : ∀ s ∈ ls.getLast?, s.isSignificant = true) {left right : List Site} {s : Site}
    (h : ls = left ++ s :: right) (hs : s.isSignificant = true) :
    s.leadingSpan.start ≤ s.start ∧ s.stop ≤ s.trailingSpan.stop := by
  obtain ⟨first, last, howned⟩ := hchain.exists_owned hlast (by simp [h]) hs
  rw [Site.owned, List.append_assoc, List.cons_append] at howned
  have hsplit : ls = (first ++ s.leadingTrivia) ++ s :: (s.trailingTrivia ++ last) := by
    rw [howned, List.append_assoc]
  rw [hchain.leadingSpan_start howned, hchain.trailingSpan_stop hsplit,
    hchain.start _ s _ hsplit, hchain.stop_eq hsplit]
  simp only [widthOfSites_append, widthOfSites_cons, widthOfSites_nil]
  omega

/-- What a token owns ends where what a later one owns starts, or before. -/
theorem Chain.trailing_le_leading (hchain : Chain ls)
    (hlast : ∀ s ∈ ls.getLast?, s.isSignificant = true) {left between right : List Site}
    {a b : Site} (h : ls = left ++ a :: (between ++ b :: right)) (ha : a.isSignificant = true)
    (hb : b.isSignificant = true) : a.trailingSpan.stop ≤ b.leadingSpan.start := by
  have howned := hchain.owned hlast
  have hfilter : ls.filter isSignificant = left.filter isSignificant ++
      a :: (between.filter isSignificant ++ b :: right.filter isSignificant) := by
    rw [h, List.filter_append, List.filter_cons_of_pos ha, List.filter_append,
      List.filter_cons_of_pos hb]
  rw [hfilter] at howned
  simp only [List.flatMap_append, List.flatMap_cons, Site.owned, List.append_assoc,
    List.cons_append] at howned
  generalize (left.filter isSignificant).flatMap _ = first at howned
  generalize (between.filter isSignificant).flatMap _ = middle at howned
  generalize (right.filter isSignificant).flatMap _ = last at howned
  have hsplit : ls = (first ++ a.leadingTrivia) ++ a :: (a.trailingTrivia ++
      (middle ++ (b.leadingTrivia ++ b :: (b.trailingTrivia ++ last)))) := by
    rw [← howned]
    simp only [List.append_assoc]
  have hsplit' : ls = (first ++ a.leadingTrivia ++ a :: (a.trailingTrivia ++ middle)) ++
      (b.leadingTrivia ++ b :: (b.trailingTrivia ++ last)) := by
    rw [← howned]
    simp only [List.append_assoc, List.cons_append]
  rw [hchain.trailingSpan_stop hsplit, hchain.leadingSpan_start hsplit']
  simp only [widthOfSites_append, widthOfSites_cons]
  omega

/-! ## Nodes -/

/-- How a node is seen from its first and last token. -/
structure Framed (n first last : Site) : Prop where
  heads : ∃ others, n.leaves = first :: others
  ends : ∃ others, n.leaves = others ++ [last]
  firstSignificant : n.firstSignificant? = some first
  lastSignificant : n.lastSignificant? = some last
  significant : first.isSignificant = true ∧ last.isSignificant = true

/-- A node starts with its first token and stops with its last one. -/
theorem Framed.span_eq {n first last : Site} (h : Framed n first last) :
    n.span = ⟨first.start, last.stop⟩ := by
  obtain ⟨others, hheads⟩ := h.heads
  obtain ⟨others', hends⟩ := h.ends
  have hfirst := (leaves_walk.1 n.tree n.origin n.start n.above [] first others hheads).start
  have hlast := (leaves_walk.1 n.tree n.origin n.start n.above others' last [] hends).start
  have hwidth := leaves_width.1 n.tree n.origin n.start n.above
  rw [← leaves_eq, hends, widthOfSites_append] at hwidth
  simp only [widthOfSites, List.map_nil, List.sum_nil, List.map_cons, List.sum_cons] at *
  simp only [span, stop, Span.ofLength, Span.mk.injEq]
  omega

/-- Of two nodes one before the other, the full span of the first ends where that of the second
starts, or before. -/
theorem Chain.fullSpan_le (hchain : Chain ls)
    (hlast : ∀ s ∈ ls.getLast?, s.isSignificant = true) {m n first last first' last' : Site}
    (hm : Framed m first last) (hn : Framed n first' last') (h : Precedes m n ls) :
    m.fullSpan.stop ≤ n.fullSpan.start := by
  obtain ⟨left, between, right, hls⟩ := h
  obtain ⟨others, hends⟩ := hm.ends
  obtain ⟨others', hheads⟩ := hn.heads
  rw [hends, hheads] at hls
  have hsplit : ls = (left ++ others) ++ last :: (between ++ first' :: (others' ++ right)) := by
    rw [hls]
    simp
  have hsplit' : ls = (left ++ others ++ last :: between) ++ first' :: (others' ++ right) := by
    rw [hls]
    simp
  have hle := hchain.trailing_le_leading hlast hsplit hm.significant.2 hn.significant.1
  have hstop := (hchain.owned_around hlast hsplit hm.significant.2).2
  have hstart := (hchain.owned_around hlast hsplit' hn.significant.1).1
  rw [fullSpan, hm.firstSignificant, hm.lastSignificant, hm.span_eq, fullSpan, hn.firstSignificant,
    hn.lastSignificant, hn.span_eq]
  show max last.trailingSpan.stop last.stop ≤ min first'.leadingSpan.start first'.start
  omega

/-- The full span of a node goes over its span. -/
theorem fullSpan_covers (n : Site) : n.fullSpan.covers n.span = true := by
  unfold fullSpan
  split
  · simp only [Span.covers, Bool.and_eq_true, decide_eq_true_eq]
    omega
  · simp [Span.covers]

/-! ## Trees without empty nodes -/

/-- Where every node has a token, the leaves are the tokens. -/
theorem leaves_eq_subtokens {s : Site} (h : s.tree.EveryNode FullNode) : s.leaves = s.subtokens := by
  refine List.filter_congr fun r hr => ?_
  have hfull := everyNode_of_mem.1 s.tree s.origin s.start s.above h r hr
  unfold isLeaf isToken
  cases htree : r.tree with
  | token k text => rfl
  | node k cs =>
      rw [htree] at hfull
      cases cs with
      | nil => exact absurd rfl hfull.1.1
      | cons c cs => rfl

/-- Where every node has a token, leaves are tokens. -/
theorem isToken_of_mem_leaves {s r : Site} (h : s.tree.EveryNode FullNode) (hr : r ∈ s.leaves) :
    r.isToken = true := by
  rw [leaves_eq_subtokens h] at hr
  exact (List.mem_filter.1 hr).2

/-- Where every node has a token, the tokens find each other. -/
theorem chain_subtokens (origin : Nat) {t : Tree} (h : t.EveryNode FullNode) :
    Chain (top origin t).subtokens := by
  have hleaves : (top origin t).leaves = (top origin t).subtokens := leaves_eq_subtokens h
  have htoken : ∀ r ∈ (top origin t).leaves, r.isToken = true := fun r hr =>
    isToken_of_mem_leaves (s := top origin t) h hr
  rw [← hleaves]
  refine ⟨fun left s right hs => (walk_eq hs).1, fun left s right hs => ?_, fun left s right hs => ?_⟩
  · rw [tokensBefore, (walk_eq hs).2.1]
    exact List.takeWhile_eq_self_iff.2 fun r hr =>
      htoken r (by rw [hs]; simp [List.mem_reverse.1 hr])
  · rw [tokensAfter, (walk_eq hs).2.2]
    exact List.takeWhile_eq_self_iff.2 fun r hr => htoken r (by rw [hs]; simp [hr])

/-- Whether a token is trivia is told by its kind. -/
theorem isTrivia_of_isToken {s : Site} (h : s.isToken = true) :
    ∃ k text, s.tree = .token k text ∧ s.isTrivia = k.isTrivia := by
  unfold isToken at h
  unfold isTrivia
  cases htree : s.tree with
  | token k text => exact ⟨k, text, rfl, rfl⟩
  | node k cs =>
      rw [htree] at h
      cases h

/-- A node that neither starts nor ends with trivia is seen from its first and last token. -/
theorem exists_framed {n : Site} (hnode : n.isNode = true) (hfull : n.tree.EveryNode FullNode)
    (hfresh : n.tree.EveryNode FreshNode) : ∃ first last, Framed n first last := by
  have htokens : n.leaves.flatMap (·.tree.tokens) = n.tree.tokens :=
    leaves_tokens.1 n.tree n.origin n.start n.above
  have hisToken : n.isToken = false := by simpa [isNode, Tree.isNode, isToken] using hnode
  obtain ⟨hne, hends, hstarts⟩ : n.tree.tokens ≠ [] ∧ EndsSignificant n.tree.tokens ∧
      StartsSignificant n.tree.tokens := by
    cases htree : n.tree with
    | token k text =>
        rw [isNode, htree] at hnode
        cases hnode
    | node k cs =>
        rw [htree] at hfull hfresh
        exact ⟨hfull.1.1, hfull.1.2, hfresh.1⟩
  have hleaves : n.leaves ≠ [] := by
    intro hnil
    rw [hnil] at htokens
    exact hne htokens.symm
  obtain ⟨first, others, hfirst⟩ := List.exists_cons_of_ne_nil hleaves
  obtain ⟨others', last, hlast⟩ := (List.eq_nil_or_concat n.leaves).resolve_left hleaves
  rw [List.concat_eq_append] at hlast
  have hfirstToken : first.isToken = true := isToken_of_mem_leaves hfull (by simp [hfirst])
  have hlastToken : last.isToken = true := isToken_of_mem_leaves hfull (by simp [hlast])
  obtain ⟨k, text, htree, htrivia⟩ := isTrivia_of_isToken hfirstToken
  obtain ⟨k', text', htree', htrivia'⟩ := isTrivia_of_isToken hlastToken
  have hfirstTrivia : first.isTrivia = false := by
    rw [htrivia]
    refine hstarts (k, text) ?_
    rw [← htokens, hfirst, List.flatMap_cons, htree]
    rfl
  have hlastTrivia : last.isTrivia = false := by
    rw [htrivia']
    refine hends (k', text') ?_
    rw [← htokens, hlast, List.flatMap_append, List.flatMap_singleton, htree']
    simp [Tree.tokens]
  refine ⟨first, last, ⟨others, hfirst⟩, ⟨others', hlast⟩, ?_, ?_, ?_⟩
  · have hhead : n.firstToken? = some first := by
      rw [firstToken?, hfirst, List.head?_cons, Option.filter_some, if_pos hfirstToken]
    simp [firstSignificant?, hisToken, hhead, hfirstTrivia]
  · have hend : n.lastToken? = some last := by
      rw [lastToken?, hlast, List.getLast?_append, List.getLast?_singleton, Option.some_or,
        Option.filter_some, if_pos hlastToken]
    simp [lastSignificant?, hisToken, hend, hlastTrivia]
  · exact ⟨by simp [isSignificant, hfirstTrivia], by simp [isSignificant, hlastTrivia]⟩

end CodeMend.Site

namespace CodeMend

open Tree Site

/-- In a tree whose nodes have tokens, the last site among the tokens holds the last of them. -/
theorem isSignificant_of_getLast {origin : Nat} {t : Tree} (hfull : t.EveryNode FullNode)
    (hends : EndsSignificant t.tokens) {s : Site} (hs : s ∈ (top origin t).subtokens.getLast?) :
    s.isSignificant = true := by
  have hleaves : (top origin t).leaves = (top origin t).subtokens := leaves_eq_subtokens hfull
  have htokens : (top origin t).leaves.flatMap (·.tree.tokens) = t.tokens :=
    leaves_tokens.1 t origin 0 []
  rw [← hleaves] at hs
  obtain ⟨others, hlast⟩ := List.getLast?_eq_some_iff.1 (Option.mem_def.1 hs)
  have htoken : s.isToken = true :=
    isToken_of_mem_leaves (s := top origin t) hfull (by rw [hlast]; simp)
  obtain ⟨k, text, htree, htrivia⟩ := isTrivia_of_isToken htoken
  have hsignificant : k.isTrivia = false := by
    refine hends (k, text) ?_
    rw [← htokens, hlast, List.flatMap_append, List.flatMap_singleton, htree]
    simp [Tree.tokens]
  simp [isSignificant, htrivia, hsignificant]

/-- The tree of a text without errors: how its nodes start and end. -/
theorem parse_clean {text : String} (hclean : (parse text).2 = []) :
    ∃ cs, (parse text).1 = .node .compilationUnit cs ∧ EveryNodeAmong FreshNode cs ∧
      (Tree.node .compilationUnit cs).EveryNode FullNode := by
  obtain ⟨cs, htree, hstored, hfresh, hfull⟩ := parse_tree text
  obtain ⟨body, htokens, -⟩ := lex_tokens text
  have hlast : tokensAll cs = body.map Token.stored ++ [(.endOfFile, "")] := by
    rw [hstored, htokens, List.map_append]
    rfl
  refine ⟨cs, htree, hfresh, ⟨?_, ?_⟩, hfull hclean⟩
  · simp [hlast]
  · intro x hx
    obtain rfl : (Kind.endOfFile, "") = x := by simpa [hlast] using hx
    rfl

/-- Of the tokens of a tree that was parsed only the end of the file has no text. -/
theorem parse_tokens_solid {text : String} {x : Kind × String} (hx : x ∈ (parse text).1.tokens) :
    x.2 ≠ "" ∨ x.1 = .endOfFile := by
  obtain ⟨cs, htree, hstored, -⟩ := parse_tree text
  obtain ⟨body, htokens, hbody, -⟩ := lex_tokens text
  rw [htree, Tree.tokens, hstored, htokens, List.map_append] at hx
  rcases List.mem_append.1 hx with hx | hx
  · obtain ⟨t, ht, rfl⟩ := List.mem_map.1 hx
    exact Or.inl (hbody t ht).2
  · obtain rfl : x = (.endOfFile, "") := by simpa [Token.stored] using hx
    exact Or.inr rfl

/-- What is known of the tree of a text without errors. -/
structure Clean (root : Site) : Prop where
  start : root.start = 0
  leaves : root.leaves = root.subtokens
  chain : Chain root.subtokens
  ends : ∀ s ∈ root.subtokens.getLast?, s.isSignificant = true
  solid : ∀ s ∈ root.subtokens, s.start < s.stop ∨ s.kind = .endOfFile
  framed : ∀ n ∈ root.subnodes, n ≠ root → ∃ first last, Framed n first last

/-- **The tree of a document without errors is clean.** -/
theorem Document.clean_root {version : Nat} {text : String}
    (hclean : (Document.ofText version text).errors = []) :
    Clean (Document.ofText version text).root := by
  obtain ⟨cs, htree, hfresh, hfull⟩ := parse_clean hclean
  have hroot : (Document.ofText version text).root = top version (.node .compilationUnit cs) :=
    congrArg (top version) htree
  have hleaves : (top version (.node .compilationUnit cs)).leaves =
      (top version (.node .compilationUnit cs)).subtokens := leaves_eq_subtokens hfull
  rw [hroot]
  refine ⟨rfl, hleaves, chain_subtokens version hfull,
    fun s hs => isSignificant_of_getLast hfull hfull.1.2 hs, fun s hs => ?_, fun n hn hne => ?_⟩
  · obtain ⟨k, spelling, htoken, -⟩ := isTrivia_of_isToken (List.mem_filter.1 hs).2
    have hmem : (k, spelling) ∈ (parse text).1.tokens := by
      rw [htree, ← leaves_tokens.1 (.node .compilationUnit cs) version 0 []]
      rw [← hleaves] at hs
      exact List.mem_flatMap.2 ⟨s, hs, by simp [htoken, Tree.tokens]⟩
    refine (parse_tokens_solid hmem).imp (fun hne => ?_) fun hkind => by
      simpa [Site.kind, htoken, Tree.kind] using hkind
    have hpos : 0 < spelling.utf8ByteSize :=
      Nat.pos_of_ne_zero fun h => hne (String.utf8ByteSize_eq_zero_iff.1 h)
    simpa [stop, span, Span.ofLength, htoken, Tree.width] using hpos
  · obtain ⟨hmem, hnode⟩ := List.mem_filter.1 hn
    have hbelow := (List.mem_cons.1 hmem).resolve_left hne
    exact exists_framed hnode (everyNode_of_mem.1 _ _ _ _ hfull n hmem)
      (everyNode_of_mem.2 cs _ _ _ _ _ _ hfresh n hbelow)

/-- **Trivia ownership is a partition.**  In a text that parses without errors, the significant
tokens with the trivia that leads and trails them are, one after the other, all tokens of the tree,
and every piece of trivia has exactly one owner.  The full span of a node covers its span, and full
spans overlap only if one of the nodes lies below the other. -/
theorem trivia_partition (version : Nat) (text : String)
    (hclean : (Document.ofText version text).errors = []) :
    let root := (Document.ofText version text).root
    (root.subtokens.filter isSignificant).flatMap
        (fun t => t.leadingTrivia ++ t :: t.trailingTrivia) = root.subtokens ∧
    (∀ t ∈ root.subtokens, t.isTrivia = true → ∃! s, s ∈ root.subtokens ∧ s.isSignificant = true ∧
      t ∈ s.leadingTrivia ++ s.trailingTrivia) ∧
    (∀ n ∈ root.subnodes, n.fullSpan.covers n.span = true) ∧
    ∀ m ∈ root.subnodes, ∀ n ∈ root.subnodes, m ∉ n.ancestors → n ∉ m.ancestors →
      m.fullSpan.stop ≤ n.fullSpan.start ∨ n.fullSpan.stop ≤ m.fullSpan.start := by
  intro root
  have hroot : Clean root := Document.clean_root hclean
  refine ⟨hroot.chain.owned hroot.ends, fun t ht => hroot.chain.existsUnique_owner hroot.ends ht,
    fun n _ => fullSpan_covers n, fun m hm n hn hmn hnm => ?_⟩
  have hm' := (List.mem_filter.1 hm).1
  have hn' := (List.mem_filter.1 hn).1
  -- the root is above every other node, so neither of the two is the root
  have habove := ancestor_of_mem.1 root.tree root.origin root.start root.above
  obtain ⟨first, last, hmFramed⟩ := hroot.framed m hm (fun h => hmn (h ▸ habove n hn'))
  obtain ⟨first', last', hnFramed⟩ := hroot.framed n hn (fun h => hnm (h ▸ habove m hm'))
  have hcases := subtree_cases.1 root.tree root.origin root.start root.above m hm' n hn'
  rcases (hcases.resolve_left hmn).resolve_left hnm with hprecedes | hprecedes
  · exact Or.inl (hroot.chain.fullSpan_le hroot.ends hmFramed hnFramed (hroot.leaves ▸ hprecedes))
  · exact Or.inr (hroot.chain.fullSpan_le hroot.ends hnFramed hmFramed (hroot.leaves ▸ hprecedes))

/-- A comment that trails a brace, and a line break that trails nothing else. -/
theorem trivia_partition_class :
    let root := (Document.ofText 1 "class C\n\x7b // x\n    int a;\n\x7d\n").root
    (root.subtokens.filter isSignificant).flatMap
      (fun t => t.leadingTrivia ++ t :: t.trailingTrivia) = root.subtokens :=
  (trivia_partition 1 "class C\n\x7b // x\n    int a;\n\x7d\n" (by decide +kernel)).1

end CodeMend
