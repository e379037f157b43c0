import CodeMend.Proofs.Ordered
import CodeMend.Proofs.Trivia.Ownership
import CodeMend.Proofs.Trivia.Pairing

/-!
# Directives of a span

In the tree of a text without errors the tokens stand in a row, each where the one before it ends.
So the walk that looks for the directives of a span finds all of them (`Clean.directivesIn_eq`), and
a cut between tokens has before it, in it and behind it what it should (`Chain.before_cut` and its
neighbours).
-/

namespace CodeMend.Site

open Tree

variable {ls : List Site}

/-! ## Tokens in a row -/

/-- No site ends before it starts. -/
theorem start_le_stop (s : Site) : s.start ≤ s.stop := Nat.le_add_right _ _

/-- A span covers another one if it reaches over both of its ends. -/
theorem covers_iff {s t : Span} : s.covers t = true ↔ s.start ≤ t.start ∧ t.stop ≤ s.stop := by
  rw [Span.covers, Bool.and_eq_true, decide_eq_true_eq, decide_eq_true_eq]

/-- The same for the span of a site. -/
theorem covers_span_iff {bounds : Span} {s : Site} :
    bounds.covers s.span = true ↔ bounds.start ≤ s.start ∧ s.stop ≤ bounds.stop :=
  covers_iff

/-- Where each token starts at the end of the one before, all those before end no later. -/
theorem Tiled.pairwise (htiled : Tiled ls) : ls.Pairwise (fun a b => a.stop ≤ b.start) := by
  have hsuffix : ∀ right left, ls = left ++ right →
      right.Pairwise (fun a b => a.stop ≤ b.start) := by
    intro right
    induction right with
    | nil => exact fun _ _ => List.Pairwise.nil
    | cons s right ih =>
        intro left h
        refine List.pairwise_cons.2 ⟨fun b hb => ?_, ih (left ++ [s]) (by rw [h]; simp)⟩
        obtain ⟨between, rest, rfl⟩ := List.append_of_mem hb
        have hstart := htiled (left ++ s :: between) b rest (by rw [h]; simp)
        rw [htiled.stop_eq h, hstart, widthOfSites_append, widthOfSites_append, widthOfSites_cons,
          widthOfSites_cons, widthOfSites_nil]
        omega
  exact hsuffix ls [] rfl

/-- The same for the tokens of a text. -/
theorem Chain.pairwise (hchain : Chain ls) : ls.Pairwise (fun a b => a.stop ≤ b.start) :=
  Tiled.pairwise hchain.start

/-- Tokens before a cut end no later than the cut. -/
theorem Chain.before_cut (hchain : Chain ls) {before rest : List Site} (h : ls = before ++ rest)
    {t : Site} (ht : t ∈ before) : t.stop ≤ widthOfSites before := by
  obtain ⟨left, right, rfl⟩ := List.append_of_mem ht
  have hsplit : ls = left ++ t :: (right ++ rest) := by rw [h]; simp
  rw [hchain.stop_eq hsplit, widthOfSites_append, widthOfSites_append, widthOfSites_cons,
    widthOfSites_cons, widthOfSites_nil]
  omega

/-- Tokens behind a cut start no earlier than the cut. -/
theorem Chain.behind_cut (hchain : Chain ls) {before rest : List Site} (h : ls = before ++ rest)
    {t : Site} (ht : t ∈ rest) : widthOfSites before ≤ t.start := by
  obtain ⟨left, right, rfl⟩ := List.append_of_mem ht
  rw [hchain.start (before ++ left) t right (by rw [h]; simp), widthOfSites_append]
  omega

/-- The site at an offset. -/
theorem Tiled.exists_at (htiled : Tiled ls) {offset : Nat} (h : offset < widthOfSites ls) :
    ∃ left x right, ls = left ++ x :: right ∧ x.start ≤ offset ∧ offset < x.stop := by
  have hfind : ∀ right left, ls = left ++ right → widthOfSites left ≤ offset →
      ∃ left x right, ls = left ++ x :: right ∧ x.start ≤ offset ∧ offset < x.stop := by
    intro right
    induction right with
    | nil =>
        intro left hsplit hle
        rw [hsplit, List.append_nil] at h
        omega
    | cons x right ih =>
        intro left hsplit hle
        have hstart := htiled left x right hsplit
        by_cases hlt : offset < x.stop
        · exact ⟨left, x, right, hsplit, by omega, hlt⟩
        · refine ih (left ++ [x]) (by rw [hsplit]; simp) ?_
          rw [← htiled.stop_eq hsplit]
          omega
  exact hfind ls [] rfl (Nat.zero_le _)

/-- Tokens from the first one on that does not start before a bound. -/
theorem le_start_of_mem_dropWhile {bound : Nat} (h : ls.Pairwise (fun a b => a.stop ≤ b.start))
    {t : Site} (ht : t ∈ ls.dropWhile (fun t => t.start < bound)) : bound ≤ t.start := by
  induction ls with
  | nil => cases ht
  | cons s ls ih =>
      obtain ⟨hfirst, hrest⟩ := List.pairwise_cons.1 h
      by_cases hs : s.start < bound
      · rw [List.dropWhile_cons_of_pos (by simpa using hs)] at ht
        exact ih hrest ht
      · rw [List.dropWhile_cons_of_neg (by simpa using hs)] at ht
        rcases List.mem_cons.1 ht with rfl | ht
        · omega
        · have hle := hfirst t ht
          have := s.start_le_stop
          omega

/-- The last token with text that reaches an offset is the one that holds it. -/
theorem getLast?_touching (hpairwise : ls.Pairwise (fun a b => a.stop ≤ b.start))
    {left right : List Site} {x : Site} {offset : Nat} (hls : ls = left ++ x :: right)
    (hstart : x.start ≤ offset) (hstop : offset < x.stop) :
    (ls.filter (fun t => !t.span.isEmpty && t.span.touches offset)).getLast? = some x := by
  have hx : (!x.span.isEmpty && x.span.touches offset) = true := by
    have hne : x.span.start ≠ x.span.stop := by
      show x.start ≠ x.stop
      omega
    simpa [Span.isEmpty, Span.touches, hne] using ⟨hstart, Nat.le_of_lt hstop⟩
  have hright : right.filter (fun t => !t.span.isEmpty && t.span.touches offset) = [] := by
    refine List.filter_eq_nil_iff.2 fun t ht htouches => ?_
    rw [hls] at hpairwise
    have hle := (List.pairwise_cons.1 (List.pairwise_append.1 hpairwise).2.1).1 t ht
    have htouches := (Bool.and_eq_true_iff.1 (Bool.and_eq_true_iff.1 htouches).2).1
    have : t.start ≤ offset := of_decide_eq_true htouches
    omega
  rw [hls, List.filter_append, List.filter_cons, if_pos hx, hright]
  simp

end CodeMend.Site

namespace CodeMend

open Tree Site

variable {root : Site}

/-- The tokens of a tree make up its width. -/
theorem Clean.width_eq (hroot : Clean root) : root.tree.width = widthOfSites root.subtokens := by
  rw [← hroot.leaves]
  exact (leaves_width.1 root.tree root.origin root.start root.above).symm

/-- The span of a tree goes over all of its tokens. -/
theorem Clean.span_eq (hroot : Clean root) : root.span = ⟨0, widthOfSites root.subtokens⟩ := by
  rw [span, hroot.start, hroot.width_eq, Span.ofLength, Nat.zero_add]

/-- The token of a site as its tree stores it. -/
def Site.stored (s : Site) : Kind × String := (s.kind, s.text)

/-- A token stores itself. -/
theorem Site.tokens_of_isToken {s : Site} (h : s.isToken = true) : s.tree.tokens = [s.stored] := by
  obtain ⟨k, text, htree, -⟩ := isTrivia_of_isToken h
  simp [stored, Site.kind, Site.text, htree, Tree.tokens, Tree.kind, Tree.text]

/-- A tree holds the tokens among its leaves, if these are all of them. -/
theorem Site.tokens_of_leaves {s : Site} (h : ∀ x ∈ s.leaves, x.isToken = true) :
    s.tree.tokens = s.leaves.map Site.stored := by
  have htokens := leaves_tokens.1 s.tree s.origin s.start s.above
  rw [← leaves_eq] at htokens
  rw [← htokens, ← List.flatMap_singleton' (s.leaves.map Site.stored), List.flatMap_map]
  exact List.flatMap_congr fun x hx => Site.tokens_of_isToken (h x hx)

/-- A tree stores its tokens in their order. -/
theorem Clean.tokens_eq (hroot : Clean root) :
    root.tree.tokens = root.subtokens.map Site.stored := by
  rw [← hroot.leaves]
  exact Site.tokens_of_leaves fun x hx => (List.mem_filter.1 (hroot.leaves ▸ hx)).2

/-- A token is as wide as its text. -/
theorem Site.width_of_isToken {s : Site} (h : s.isToken = true) :
    s.tree.width = s.text.utf8ByteSize := by
  rw [Tree.width_eq.1, Site.tokens_of_isToken h]
  simp [Site.stored]

/-- Stored tokens are as wide as their sites. -/
theorem widthOf_stored {ls : List Site} (h : ∀ s ∈ ls, s.isToken = true) :
    widthOf (ls.map Site.stored) = widthOfSites ls := by
  induction ls with
  | nil => rfl
  | cons s ls ih =>
      rw [widthOfSites_cons, Site.width_of_isToken (h s List.mem_cons_self),
        ← ih fun t ht => h t (List.mem_cons_of_mem s ht)]
      simp [Site.stored]

/-! ## The tokens around a part -/

/-- The leaves below a site are leaves of the tree. -/
theorem Site.leaves_subset {origin : Nat} {t : Tree} {s : Site} (hs : s ∈ (top origin t).subtree) :
    s.leaves ⊆ (top origin t).leaves := by
  obtain ⟨left, right, hleaves⟩ := leaves_of_mem.1 t origin 0 [] s hs
  intro x hx
  show x ∈ leavesOf origin 0 [] t
  rw [hleaves]
  exact List.mem_append_right _ (List.mem_append_left _ hx)

/-- The tokens before, in and behind a part of a text that does not end the file. -/
theorem Document.exists_around {version : Nat} {text : String}
    (herr : (Document.ofText version text).errors = []) {s last : Site} {others : List Site}
    (hs : s ∈ (Document.ofText version text).root.subtree) (hends : s.leaves = others ++ [last])
    (hlast : last.kind ≠ .endOfFile) :
    ∃ cs left right stop, stop.stored = (.endOfFile, "") ∧
      (Document.ofText version text).tree = .node .compilationUnit (cs ++ [.token .endOfFile ""]) ∧
      (Document.ofText version text).root.subtokens = left ++ (s.leaves ++ (right ++ [stop])) ∧
      tokensAll cs = (left ++ (s.leaves ++ right)).map Site.stored ∧
      ∀ x ∈ left ++ (s.leaves ++ right), x.isToken = true ∧ x.text ≠ "" := by
  have hroot := Document.clean_root herr
  obtain ⟨cs, htree, htokens, hsolid⟩ := parse_tree_solid text
  obtain ⟨left, rest, hsplit⟩ := leaves_of_mem.1 _ _ 0 [] s hs
  have hsplit : (Document.ofText version text).root.subtokens = left ++ (s.leaves ++ rest) := by
    rw [← hroot.leaves, leaves_eq]
    exact hsplit
  have hstored := hroot.tokens_eq.symm.trans htokens
  rw [hsplit] at hstored
  rcases List.eq_nil_or_concat rest with rfl | ⟨right, stop, rfl⟩
  · rw [hends, List.append_nil, ← List.append_assoc, List.map_append] at hstored
    obtain ⟨-, hkind⟩ := List.append_inj' hstored rfl
    exact absurd (congrArg Prod.fst (List.cons.inj hkind).1) hlast
  · rw [List.concat_eq_append] at hsplit hstored
    have hstored : (left ++ (s.leaves ++ right)).map Site.stored ++ [stop.stored] =
        tokensAll cs ++ [(.endOfFile, "")] := by
      rw [← hstored]
      simp
    obtain ⟨hcs, hstop⟩ := List.append_inj' hstored rfl
    refine ⟨cs, left, right, stop, (List.cons.inj hstop).1, htree, hsplit, hcs.symm,
      fun x hx => ⟨?_, ?_⟩⟩
    · refine (List.mem_filter.1 (show x ∈ (Document.ofText version text).root.subtokens from ?_)).2
      have hassoc : left ++ (s.leaves ++ (right ++ [stop])) = (left ++ (s.leaves ++ right)) ++ [stop] := by
        simp only [List.append_assoc]
      rw [hsplit, hassoc]
      exact List.mem_append_left _ hx
    · exact hsolid x.stored (hcs ▸ List.mem_map_of_mem hx)

/-- The tokens of a site are its leaves. -/
theorem Clean.tokens_eq_leaves {origin : Nat} {t : Tree} (hroot : Clean (top origin t)) {s : Site}
    (hs : s ∈ (top origin t).subtree) :
    s.tree.tokens = s.leaves.map Site.stored :=
  Site.tokens_of_leaves fun _ hx => (List.mem_filter.1 (hroot.leaves ▸ Site.leaves_subset hs hx)).2

/-- The tokens of a span, from the one that holds its start on. -/
theorem Clean.tokensIn_eq (hroot : Clean root) {bounds : Span} (hlt : bounds.start < bounds.stop)
    (hin : bounds.start < widthOfSites root.subtokens) :
    ∃ left x right, root.subtokens = left ++ x :: right ∧ x.start ≤ bounds.start ∧
      root.tokensIn bounds = (x :: right).takeWhile
        (fun t => t.start < min bounds.stop (widthOfSites root.subtokens)) := by
  obtain ⟨left, x, right, hls, hstart, hstop⟩ := Tiled.exists_at hroot.chain.start hin
  have hinter : root.span.inter? bounds =
      some ⟨bounds.start, min (widthOfSites root.subtokens) bounds.stop⟩ := by
    rw [hroot.span_eq, Span.inter?, Nat.zero_max, if_neg (by simp only; omega)]
  have hne : (Span.mk bounds.start (min (widthOfSites root.subtokens) bounds.stop)).isEmpty =
      false := by
    simp only [Span.isEmpty, beq_eq_false_iff_ne]
    omega
  have hfirst : (root.touching bounds.start).getLast? = some x :=
    getLast?_touching hroot.chain.pairwise hls hstart hstop
  refine ⟨left, x, right, hls, hstart, ?_⟩
  rw [tokensIn, hinter]
  simp only [hne, hfirst, hroot.span_eq, hroot.chain.after left x right hls]
  rfl

/-- No tokens are in a span that is empty or starts at or behind the end of the text. -/
theorem Clean.tokensIn_eq_nil {bounds : Span} (hroot : Clean root)
    (h : ¬ (bounds.start < bounds.stop ∧ bounds.start < widthOfSites root.subtokens)) :
    root.tokensIn bounds = [] := by
  rw [tokensIn, hroot.span_eq, Span.inter?, Nat.zero_max]
  split
  · rfl
  · next hinter =>
    split at hinter
    · cases hinter
    · cases hinter
      rw [if_pos]
      simp only [Span.isEmpty, beq_iff_eq] at *
      omega

/-- Every token but the end of the file has text. -/
theorem Clean.start_lt_stop (hroot : Clean root) {t : Site} (ht : t ∈ root.subtokens)
    (hkind : t.kind ≠ .endOfFile) : t.start < t.stop :=
  (hroot.solid t ht).resolve_right hkind

/-- A directive has text. -/
theorem Clean.directive_solid (hroot : Clean root) {t : Site} (ht : t ∈ root.subtokens)
    (hdirective : t.kind.isDirective = true) : t.start < t.stop := by
  refine hroot.start_lt_stop ht fun hkind => ?_
  rw [hkind] at hdirective
  cases hdirective

/-- **The tokens of some kinds in a span** are those among the tokens that it covers. -/
theorem Clean.filter_tokensIn (hroot : Clean root) {p : Kind → Bool} (hp : p .endOfFile = false)
    (bounds : Span) : (root.tokensIn bounds).filter (fun t => p t.kind && bounds.covers t.span) =
      root.subtokens.filter (fun t => p t.kind && bounds.covers t.span) := by
  have hkind : ∀ t : Site, p t.kind = true → t.kind ≠ .endOfFile := by
    intro t ht hend
    rw [hend, hp] at ht
    cases ht
  by_cases hin : bounds.start < bounds.stop ∧ bounds.start < widthOfSites root.subtokens
  · obtain ⟨left, x, right, hls, hstart, htokens⟩ := hroot.tokensIn_eq hin.1 hin.2
    have hpairwise := hroot.chain.pairwise
    rw [hls] at hpairwise
    obtain ⟨-, hbehind, hleft⟩ := List.pairwise_append.1 hpairwise
    have hbefore : left.filter (fun t => p t.kind && bounds.covers t.span) = [] := by
      refine List.filter_eq_nil_iff.2 fun t ht hcovered => ?_
      obtain ⟨hpt, hcovers⟩ := Bool.and_eq_true_iff.1 hcovered
      have hsolid := hroot.start_lt_stop (by rw [hls]; simp [ht]) (hkind t hpt)
      have hle := hleft t ht x List.mem_cons_self
      have := (covers_span_iff.1 hcovers).1
      omega
    have hpast : ((x :: right).dropWhile
        (fun t => t.start < min bounds.stop (widthOfSites root.subtokens))).filter
          (fun t => p t.kind && bounds.covers t.span) = [] := by
      refine List.filter_eq_nil_iff.2 fun t ht hcovered => ?_
      obtain ⟨hpt, hcovers⟩ := Bool.and_eq_true_iff.1 hcovered
      have hmem : t ∈ root.subtokens := by
        rw [hls]
        exact List.mem_append_right _ ((List.dropWhile_sublist _).subset ht)
      have hsolid := hroot.start_lt_stop hmem (hkind t hpt)
      have hlate := le_start_of_mem_dropWhile hbehind ht
      have hwithin := hroot.chain.before_cut (List.append_nil _).symm hmem
      have := (covers_span_iff.1 hcovers).2
      omega
    have hsplit := List.takeWhile_append_dropWhile (l := x :: right)
      (p := fun t : Site => t.start < min bounds.stop (widthOfSites root.subtokens))
    calc (root.tokensIn bounds).filter _
        = ((x :: right).takeWhile _).filter _ := by rw [htokens]
      _ = (x :: right).filter _ := by
          conv_rhs => rw [← hsplit, List.filter_append, hpast, List.append_nil]
      _ = root.subtokens.filter _ := by rw [hls, List.filter_append, hbefore, List.nil_append]
  · rw [hroot.tokensIn_eq_nil hin, List.filter_nil, eq_comm, List.filter_eq_nil_iff]
    intro t ht hcovered
    obtain ⟨hpt, hcovers⟩ := Bool.and_eq_true_iff.1 hcovered
    have hsolid := hroot.start_lt_stop ht (hkind t hpt)
    rw [covers_span_iff] at hcovers
    have hwithin := hroot.chain.before_cut (List.append_nil _).symm ht
    omega

/-- The directives of a span are the directives among the tokens that it covers. -/
theorem Clean.directivesIn_eq (hroot : Clean root) (bounds : Span) :
    root.directivesIn bounds =
      root.subtokens.filter (fun t => t.kind.isDirective && bounds.covers t.span) :=
  hroot.filter_tokensIn rfl bounds

/-! ## Cuts between tokens -/

/-- The directives among tokens. -/
def directivesAmong (ls : List Site) : List Site := ls.filter (fun t => t.kind.isDirective)

/-- The directives of two rows, one behind the other. -/
theorem directivesAmong_append (ls rs : List Site) :
    directivesAmong (ls ++ rs) = directivesAmong ls ++ directivesAmong rs :=
  List.filter_append ls rs

/-- The tokens of a tree, cut at both ends of a span. -/
structure CutAt (root : Site) (removed : Span) (before cut after : List Site) : Prop where
  tokens : root.subtokens = before ++ (cut ++ after)
  start : widthOfSites before = removed.start
  stop : removed.start + widthOfSites cut = removed.stop

section Cut

variable {removed : Span} {before cut after : List Site}

/-- What stands before the cut ends where it starts or earlier. -/
theorem CutAt.before_le (hroot : Clean root) (h : CutAt root removed before cut after) {t : Site}
    (ht : t ∈ before) : t.stop ≤ removed.start :=
  h.start ▸ hroot.chain.before_cut h.tokens ht

/-- What stands behind the cut starts where it ends or later. -/
theorem CutAt.le_after (hroot : Clean root) (h : CutAt root removed before cut after) {t : Site}
    (ht : t ∈ after) : removed.stop ≤ t.start := by
  have htokens := h.tokens
  rw [← List.append_assoc] at htokens
  have hbehind := hroot.chain.behind_cut htokens ht
  rwa [widthOfSites_append, h.start, h.stop] at hbehind

/-- What stands in the cut lies between its ends. -/
theorem CutAt.covers_cut (hroot : Clean root) (h : CutAt root removed before cut after) {t : Site}
    (ht : t ∈ cut) : removed.start ≤ t.start ∧ t.stop ≤ removed.stop := by
  have htokens := h.tokens
  have hstart := hroot.chain.behind_cut htokens (List.mem_append_left after ht)
  rw [← List.append_assoc] at htokens
  have hstop := hroot.chain.before_cut htokens (List.mem_append_right before ht)
  rw [widthOfSites_append, h.start, h.stop] at hstop
  exact ⟨h.start ▸ hstart, hstop⟩

/-- The directives of a span around the cut: some before it, those in it and some behind it, which
stand together among all directives. -/
theorem CutAt.directivesIn_around (hroot : Clean root) (h : CutAt root removed before cut after)
    {scope : Span} (hcovers : scope.covers removed = true) :
    ∃ first left right last, directivesAmong before = first ++ left ∧
      directivesAmong after = right ++ last ∧
      root.directivesIn scope = left ++ (directivesAmong cut ++ right) := by
  have hstop := h.stop
  obtain ⟨hscope, hscope'⟩ := covers_iff.1 hcovers
  have hpairwise := hroot.chain.pairwise
  rw [h.tokens] at hpairwise
  obtain ⟨hbefore, hrest, -⟩ := List.pairwise_append.1 hpairwise
  obtain ⟨-, hafter, -⟩ := List.pairwise_append.1 hrest
  have hfront : (directivesAmong before).Pairwise (fun a b =>
      decide (b.start < scope.start) = true → decide (a.start < scope.start) = true) := by
    refine (hbefore.filter _).imp fun {a b} hab => ?_
    have := a.start_le_stop
    simp only [decide_eq_true_eq]
    omega
  have hback : (directivesAmong after).Pairwise (fun a b =>
      decide (b.stop ≤ scope.stop) = true → decide (a.stop ≤ scope.stop) = true) := by
    refine (hafter.filter _).imp fun {a b} hab => ?_
    have := b.start_le_stop
    simp only [decide_eq_true_eq]
    omega
  refine ⟨_, _, _, _, (filter_append_filter_not hfront).symm,
    (filter_append_filter_not hback).symm, ?_⟩
  rw [hroot.directivesIn_eq, h.tokens, List.filter_append, List.filter_append]
  refine congrArg₂ (· ++ ·) ?_ (congrArg₂ (· ++ ·) ?_ ?_)
  · rw [directivesAmong, List.filter_filter]
    refine List.filter_congr fun t ht => ?_
    have hle := h.before_le hroot ht
    have hcovered : scope.covers t.span = !decide (t.start < scope.start) := by
      rw [Bool.eq_iff_iff, covers_span_iff, Bool.not_eq_true', decide_eq_false_iff_not]
      omega
    rw [hcovered, Bool.and_comm]
  · refine List.filter_congr fun t ht => ?_
    have hin := h.covers_cut hroot ht
    have hcovered : scope.covers t.span = true := covers_span_iff.2 (by omega)
    rw [hcovered, Bool.and_true]
  · rw [directivesAmong, List.filter_filter]
    refine List.filter_congr fun t ht => ?_
    have hle := h.le_after hroot ht
    have hcovered : scope.covers t.span = decide (t.stop ≤ scope.stop) := by
      rw [Bool.eq_iff_iff, covers_span_iff, decide_eq_true_eq]
      omega
    rw [hcovered, Bool.and_comm]

/-- A directive outside the cut is not covered by its span. -/
theorem CutAt.not_covers (hroot : Clean root) (h : CutAt root removed before cut after) {t : Site}
    (ht : t ∈ directivesAmong before ∨ t ∈ directivesAmong after) :
    removed.covers t.span = false := by
  have hstop := h.stop
  refine Bool.eq_false_iff.2 fun hcovers => ?_
  rw [covers_span_iff] at hcovers
  rcases ht with ht | ht
  · obtain ⟨ht, hdirective⟩ := List.mem_filter.1 ht
    have hsolid := hroot.directive_solid (by rw [h.tokens]; simp [ht]) hdirective
    have := h.before_le hroot ht
    omega
  · obtain ⟨ht, hdirective⟩ := List.mem_filter.1 ht
    have hsolid := hroot.directive_solid (by rw [h.tokens]; simp [ht]) hdirective
    have := h.le_after hroot ht
    omega

/-- A directive in the cut is covered by its span. -/
theorem CutAt.covers_of_mem (hroot : Clean root) (h : CutAt root removed before cut after)
    {t : Site} (ht : t ∈ directivesAmong cut) : removed.covers t.span = true :=
  covers_span_iff.2 (h.covers_cut hroot (List.mem_filter.1 ht).1)

/-- What a span around the cut keeps of its directives stands on both sides of the cut. -/
theorem CutAt.spared_eq (hroot : Clean root) (h : CutAt root removed before cut after)
    {first left right last : List Site} (hbefore : directivesAmong before = first ++ left)
    (hafter : directivesAmong after = right ++ last) :
    (left ++ (directivesAmong cut ++ right)).filter (fun t => !removed.covers t.span) =
      left ++ right := by
  have hleft : left.filter (fun t => !removed.covers t.span) = left :=
    List.filter_eq_self.2 fun t ht => by
      rw [h.not_covers hroot (Or.inl (by rw [hbefore]; simp [ht]))]
      rfl
  have hcut : (directivesAmong cut).filter (fun t => !removed.covers t.span) = [] :=
    List.filter_eq_nil_iff.2 fun t ht => by simp [h.covers_of_mem hroot ht]
  have hright : right.filter (fun t => !removed.covers t.span) = right :=
    List.filter_eq_self.2 fun t ht => by
      rw [h.not_covers hroot (Or.inr (by rw [hafter]; simp [ht]))]
      rfl
  rw [List.filter_append, List.filter_append, hleft, hcut, hright, List.nil_append]

/-- The directives of the span of a cut are those in the cut. -/
theorem CutAt.directivesIn_eq (hroot : Clean root) (h : CutAt root removed before cut after) :
    root.directivesIn removed = directivesAmong cut := by
  obtain ⟨first, left, right, last, hbefore, hafter, haround⟩ :=
    h.directivesIn_around hroot (show removed.covers removed = true by simp [Span.covers])
  have hall : ∀ t ∈ root.directivesIn removed, removed.covers t.span = true := by
    intro t ht
    rw [hroot.directivesIn_eq] at ht
    exact (Bool.and_eq_true_iff.1 (List.mem_filter.1 ht).2).2
  have hspared : left ++ right = [] := by
    rw [← h.spared_eq hroot hbefore hafter, ← haround]
    exact List.filter_eq_nil_iff.2 fun t ht => by simp [hall t ht]
  obtain ⟨rfl, rfl⟩ := List.append_eq_nil_iff.1 hspared
  rw [haround, List.append_nil, List.nil_append]

open Directive

/-- **A cut in a balanced stretch.**  Where the directives of a span around the cut are balanced,
those left of a balanced text are balanced if and only if those left of the span are. -/
theorem CutAt.balanced_iff (hroot : Clean root) (h : CutAt root removed before cut after)
    {scope : Span} (hcovers : scope.covers removed = true)
    (hwhole : Balanced ((directivesAmong root.subtokens).map Site.directive))
    (hscope : root.unbalancedIn scope = []) :
    Balanced ((directivesAmong before ++ directivesAmong after).map Site.directive) ↔
      Balanced (((root.directivesIn scope).filter (fun t => !removed.covers t.span)).map
        Site.directive) := by
  obtain ⟨first, left, right, last, hbefore, hafter, haround⟩ := h.directivesIn_around hroot hcovers
  have hinner := (unbalanced_eq_nil_iff Site.directive Site.start _).1 hscope
  rw [haround] at hinner
  rw [h.tokens, directivesAmong_append, directivesAmong_append, hbefore, hafter] at hwhole
  rw [haround, h.spared_eq hroot hbefore hafter, hbefore, hafter]
  simp only [List.map_append, List.append_assoc] at hinner hwhole ⊢
  exact balanced_hole_iff (by simpa only [List.append_assoc] using hwhole) hinner

/-- A cut in whose place its directives without a partner are written back. -/
theorem CutAt.balanced_kept (hroot : Clean root) (h : CutAt root removed before cut after)
    (hwhole : Balanced ((directivesAmong root.subtokens).map Site.directive)) :
    Balanced ((directivesAmong before ++ (root.unbalancedIn removed ++ directivesAmong after)).map
      Site.directive) := by
  rw [h.tokens, directivesAmong_append, directivesAmong_append] at hwhole
  rw [unbalancedIn, h.directivesIn_eq hroot]
  simp only [List.map_append, Directive.balanced_iff, opens_append_eq_some] at hwhole ⊢
  obtain ⟨outer, hbefore, inner, hcut, hafter⟩ := hwhole
  have hsublist : (directivesAmong cut).Sublist root.subtokens := by
    rw [h.tokens]
    exact List.filter_sublist.trans ((List.sublist_append_left _ _).trans (List.sublist_append_right _ _))
  have hstart : (directivesAmong cut).Pairwise fun a b => a.start ≤ b.start :=
    (hroot.chain.pairwise.sublist hsublist).imp fun {a b} hab => Nat.le_trans a.start_le_stop hab
  exact ⟨outer, hbefore, inner, opens_unbalanced hstart hcut, hafter⟩

end Cut

end CodeMend
