import CodeMend.Proofs.Syntax.Covering
import CodeMend.Proofs.Trivia.Spans

/-!
# The deepest node around a span

A search for a node goes up from one place and takes the first node that covers the span, so it finds
the deepest one if all nodes that cover the span stand above that place (`Clean.findNode?_climbs`).
Without trivia the place is where the descent by the span ends.  With trivia it is the token that owns
the first byte of the span: a full span is made of what the tokens of its node own, so a node whose
full span holds the byte has the owner below it (`Clean.mem_ancestors_owner`).
-/

namespace CodeMend

namespace Site

variable {ls : List Site}

/-- The span of a node that a search compares: its own, or the full one with its trivia. -/
def extent (n : Site) (trivia : Bool) : Span := if trivia then n.fullSpan else n.span

/-! ## Owners -/

/-- What a token owns starts and ends where its spans of trivia do. -/
theorem Chain.owned_within (hchain : Chain ls)
    (hlast : ∀ s ∈ ls.getLast?, s.isSignificant = true) {o t : Site} (ho : o ∈ ls)
    (hsignificant : o.isSignificant = true) (ht : t ∈ o.owned) :
    o.leadingSpan.start ≤ t.start ∧ t.stop ≤ o.trailingSpan.stop := by
  obtain ⟨first, last, hsplit⟩ := hchain.exists_owned hlast ho hsignificant
  have hleading : ls = first ++ (o.leadingTrivia ++ o :: (o.trailingTrivia ++ last)) := by
    rw [hsplit, Site.owned, List.append_assoc, List.cons_append]
  have htrailing : ls = (first ++ o.leadingTrivia) ++ o :: (o.trailingTrivia ++ last) := by
    rw [hleading, List.append_assoc]
  rw [hchain.leadingSpan_start hleading, hchain.trailingSpan_stop htrailing]
  refine ⟨hchain.behind_cut hsplit (List.mem_append_left last ht), ?_⟩
  rw [← List.append_assoc] at hsplit
  have hstop := hchain.before_cut hsplit (List.mem_append_right first ht)
  rwa [Site.owned, ← List.append_assoc] at hstop

/-! ## Words around trivia -/

section

variable {front left run rest : List Site} {p t n : Site}

theorem Chain.prevSignificant?_first (hchain : Chain ls) (h : ls = left ++ t :: rest)
    (hleft : ∀ r ∈ left, r.isTrivia = true) : t.prevSignificant? = none := by
  rw [prevSignificant?, hchain.before left t _ h, List.find?_eq_none]
  intro r hr
  simp [isSignificant, hleft r (List.mem_reverse.1 hr)]

/-- Going back over trivia meets the significant token before them. -/
theorem Chain.prevSignificant?_behind (hchain : Chain ls) (h : ls = (front ++ p :: left) ++ t :: rest)
    (hleft : ∀ r ∈ left, r.isTrivia = true) (hp : p.isSignificant = true) :
    t.prevSignificant? = some p := by
  have hskip : left.reverse.find? isSignificant = none :=
    List.find?_eq_none.2 fun r hr => by simp [isSignificant, hleft r (List.mem_reverse.1 hr)]
  rw [prevSignificant?, hchain.before _ t _ h, List.reverse_append, List.reverse_cons,
    List.append_assoc, List.find?_append, hskip, Option.none_or, List.singleton_append,
    List.find?_cons_of_pos hp]

theorem Chain.nextSignificant?_before (hchain : Chain ls) (h : ls = left ++ t :: (run ++ n :: rest))
    (hrun : ∀ r ∈ run, r.isTrivia = true) (hn : n.isSignificant = true) :
    t.nextSignificant? = some n := by
  have hskip : run.find? isSignificant = none :=
    List.find?_eq_none.2 fun r hr => by simp [isSignificant, hrun r hr]
  rw [nextSignificant?, hchain.after left t _ h, List.find?_append, hskip, Option.none_or,
    List.find?_cons_of_pos hn]

/-- All trivia before the first word leads it. -/
theorem Chain.triviaOwner?_first (hchain : Chain ls) (h : ls = left ++ t :: (run ++ n :: rest))
    (hall : ∀ r ∈ left ++ t :: run, r.isTrivia = true) (hn : n.isSignificant = true) :
    t ∈ n.owned ∧ t.triviaOwner? = some n := by
  have hprev := hchain.prevSignificant?_first h fun r hr => hall r (List.mem_append_left _ hr)
  have hnext := hchain.nextSignificant?_before h (fun r hr => hall r (by simp [hr])) hn
  have hsplit : ls = (left ++ t :: run) ++ n :: rest := by simp [h]
  have hlead := hchain.leadingTrivia_first hsplit hall hn
  exact ⟨by simp [Site.owned, hlead], by rw [triviaOwner?, hprev, hnext]⟩

/-- Trivia between two words trails the first or leads the second. -/
theorem Chain.triviaOwner?_between (hchain : Chain ls)
    (hlast : ∀ s ∈ ls.getLast?, s.isSignificant = true)
    (h : ls = (front ++ p :: left) ++ t :: (run ++ n :: rest))
    (hall : ∀ r ∈ left ++ t :: run, r.isTrivia = true) (hp : p.isSignificant = true)
    (hn : n.isSignificant = true) (hsolid : t.start < t.stop) :
    t ∈ p.owned ∧ t.triviaOwner? = some p ∨ t ∈ n.owned ∧ t.triviaOwner? = some n := by
  have hprev := hchain.prevSignificant?_behind h (fun r hr => hall r (List.mem_append_left _ hr)) hp
  have hnext := hchain.nextSignificant?_before h (fun r hr => hall r (by simp [hr])) hn
  have hpsplit : ls = front ++ p :: ((left ++ t :: run) ++ n :: rest) := by simp [h]
  have hnsplit : ls = (front ++ p :: (left ++ t :: run)) ++ n :: rest := by simp [h]
  have howned : t ∈ p.trailingTrivia ++ n.leadingTrivia := by
    rw [hchain.trailingTrivia_eq hpsplit hp, hchain.leadingTrivia_next hnsplit hp hall hn,
      takeWhile_trivia_append hall hn, trailingPart_append_leadingPart]
    simp
  rcases List.mem_append.1 howned with hmem | hmem
  · have hin : t ∈ p.owned := List.mem_append_right _ (List.mem_cons_of_mem p hmem)
    have hbehind : p.stop ≤ t.start := by
      have hpairwise := hchain.pairwise
      rw [hpsplit] at hpairwise
      exact (List.pairwise_cons.1 (List.pairwise_append.1 hpairwise).2.1).1 t (by simp)
    have hcovers : p.trailingSpan.covers t.span = true :=
      covers_span_iff.2 ⟨hbehind, (hchain.owned_within hlast (by simp [h]) hp hin).2⟩
    exact .inl ⟨hin, by simp only [triviaOwner?, hprev, hcovers, if_pos]⟩
  · have hin : t ∈ n.owned := List.mem_append_left _ hmem
    have happart : ¬ p.trailingSpan.covers t.span = true := by
      intro hcovers
      have hstop := (covers_span_iff.1 hcovers).2
      have hstart := (hchain.owned_within hlast (by simp [h]) hn hin).1
      have hle := hchain.trailing_le_leading hlast hpsplit hp hn
      omega
    exact .inr ⟨hin, by simp only [triviaOwner?, hprev, hnext, if_neg happart]⟩

end

/-- **The owner that a token of trivia finds owns it.** -/
theorem Chain.exists_triviaOwner (hchain : Chain ls)
    (hlast : ∀ s ∈ ls.getLast?, s.isSignificant = true) {t : Site} (ht : t ∈ ls)
    (htrivia : t.isTrivia = true) (hsolid : t.start < t.stop) :
    ∃ o ∈ ls, o.isSignificant = true ∧ t ∈ o.owned ∧ t.triviaOwner? = some o := by
  obtain ⟨left, right, hsplit⟩ := List.append_of_mem ht
  have hend : ∀ s ∈ right.getLast?, s.isSignificant = true := fun s hs => hlast s (by
    rw [hsplit, List.getLast?_append, List.getLast?_cons, Option.mem_def.1 hs]
    rfl)
  have hne : right ≠ [] := by
    rintro rfl
    have hsignificant := hlast t (by simp [hsplit])
    rw [isSignificant, htrivia] at hsignificant
    cases hsignificant
  obtain ⟨run, n, rest, rfl, hrun, hn, -⟩ := split_significant hend hne
  have hbehind : ∀ r ∈ t :: run, r.isTrivia = true := List.forall_mem_cons.2 ⟨htrivia, hrun⟩
  cases hprev : left.reverse.find? isSignificant with
  | none =>
      rw [List.find?_eq_none] at hprev
      have hleft : ∀ r ∈ left, r.isTrivia = true := fun r hr => by
        simpa [isSignificant] using hprev r (List.mem_reverse.2 hr)
      obtain ⟨hmem, howner⟩ := hchain.triviaOwner?_first hsplit
        (List.forall_mem_append.2 ⟨hleft, hbehind⟩) hn
      exact ⟨n, by simp [hsplit], hn, hmem, howner⟩
  | some p =>
      obtain ⟨hp, later, sooner, hreverse, hlater⟩ := List.find?_eq_some_iff_append.1 hprev
      obtain rfl : left = sooner.reverse ++ p :: later.reverse := by
        rw [← List.reverse_reverse left, hreverse]
        simp
      have hleft : ∀ r ∈ later.reverse, r.isTrivia = true := fun r hr => by
        simpa [isSignificant] using hlater r (List.mem_reverse.1 hr)
      rcases hchain.triviaOwner?_between hlast hsplit
        (List.forall_mem_append.2 ⟨hleft, hbehind⟩) hp hn hsolid with ⟨hmem, howner⟩ | ⟨hmem, howner⟩
      · exact ⟨p, by simp [hsplit], hp, hmem, howner⟩
      · exact ⟨n, by simp [hsplit], hn, hmem, howner⟩

end Site

open Tree Site

variable {root : Site}

/-! ## Full spans -/

/-- **A node whose full span holds a byte of what a token owns stands above the token.** -/
theorem Clean.mem_ancestors_owner (hroot : Clean root) {o t m : Site} (ho : o ∈ root.subtokens)
    (hsignificant : o.isSignificant = true) (ht : t ∈ o.owned) (hm : m ∈ root.subnodes)
    {offset : Nat} (hin : t.start ≤ offset ∧ offset < t.stop)
    (hfull : m.fullSpan.start ≤ offset ∧ offset < m.fullSpan.stop) : m ∈ o.ancestors := by
  by_cases hne : m = root
  · rw [hne]
    exact ancestor_of_mem.1 root.tree root.origin root.start root.above o (List.mem_filter.1 ho).1
  obtain ⟨first, last, hframed⟩ := hroot.framed m hm hne
  obtain ⟨others, hheads⟩ := hframed.heads
  obtain ⟨others', hends⟩ := hframed.ends
  obtain ⟨left, right, hleaves⟩ :=
    leaves_of_mem.1 root.tree root.origin root.start root.above m (List.mem_filter.1 hm).1
  have hrow : root.subtokens = left ++ (m.leaves ++ right) := by
    rw [← hroot.leaves]
    exact hleaves
  have howned := hroot.chain.owned_within hroot.ends ho hsignificant ht
  have hspan : m.fullSpan = ⟨min first.leadingSpan.start first.start,
      max last.trailingSpan.stop last.stop⟩ := by
    rw [fullSpan, hframed.firstSignificant, hframed.lastSignificant, hframed.span_eq]
  have hbefore : root.subtokens = left ++ first :: (others ++ right) := by
    rw [hrow, hheads, List.cons_append]
  have hbehind : root.subtokens = (left ++ others') ++ last :: right := by
    rw [hrow, hends]
    simp
  have hstart := (hroot.chain.owned_around hroot.ends hbefore hframed.significant.1).1
  have hstop := (hroot.chain.owned_around hroot.ends hbehind hframed.significant.2).2
  rw [hspan] at hfull
  dsimp only at hfull
  have hmem : o ∈ m.leaves := by
    rw [hrow] at ho
    rcases List.mem_append.1 ho with hleft | ho
    · -- a word before the node owns nothing behind the start of its full span
      obtain ⟨sooner, later, rfl⟩ := List.append_of_mem hleft
      have hle := hroot.chain.trailing_le_leading hroot.ends
        (show root.subtokens = sooner ++ o :: (later ++ first :: (others ++ right)) by
          rw [hbefore]; simp) hsignificant hframed.significant.1
      omega
    · refine (List.mem_append.1 ho).resolve_right fun hright => ?_
      obtain ⟨sooner, later, rfl⟩ := List.append_of_mem hright
      have hle := hroot.chain.trailing_le_leading hroot.ends
        (show root.subtokens = (left ++ others') ++ last :: (sooner ++ o :: later) by
          rw [hbehind]) hframed.significant.2 hsignificant
      omega
  exact ancestor_of_mem.1 m.tree m.origin m.start m.above o (List.mem_filter.1 hmem).1

/-! ## The search -/

/-- The token that holds an offset, however it is looked up. -/
theorem Clean.exists_rawToken (hroot : Clean root) {span : Span} (hspan : span.start < span.stop)
    (hcovers : root.span.covers span = true) :
    ∃ x ∈ root.subtokens, x.start ≤ span.start ∧ span.start < x.stop ∧
      root.rawTokenAt? span.start .following = some x ∧
      ((root.covering span).isToken = true → root.covering span = x) := by
  have hbounds := covers_iff.1 hcovers
  rw [hroot.span_eq] at hbounds
  dsimp only at hbounds
  obtain ⟨left, x, right, hsplit, hstart, hstop⟩ :=
    Tiled.exists_at hroot.chain.start (show span.start < widthOfSites root.subtokens by omega)
  have hlast := getLast?_touching hroot.chain.pairwise hsplit hstart hstop
  have htouches : root.span.touches span.start = true := by
    rw [hroot.span_eq, Span.touches, Bool.and_eq_true, decide_eq_true_eq, decide_eq_true_eq]
    dsimp only
    omega
  refine ⟨x, by simp [hsplit], hstart, hstop, ?_, fun htoken => ?_⟩
  · unfold rawTokenAt?
    rw [if_pos htouches]
    change (root.touching span.start).getLast? = some x at hlast
    cases htouching : root.touching span.start with
    | nil => simp [htouching] at hlast
    | cons t ts =>
        rw [htouching] at hlast
        exact hlast
  · have hmem : root.covering span ∈ root.subtokens := List.mem_filter.2
      ⟨(coverIn_mem span).1 root.tree root.origin root.start root.above, htoken⟩
    have hcover : (root.covering span).start ≤ span.start ∧ span.stop ≤ (root.covering span).stop :=
      covers_iff.1 ((covers_coverIn span).1 root.tree root.origin root.start root.above hcovers)
    have hpairwise := hroot.chain.pairwise
    rw [hsplit] at hmem hpairwise
    obtain ⟨-, hbehind, hleft⟩ := List.pairwise_append.1 hpairwise
    rcases List.mem_append.1 hmem with hmem | hmem
    · have := hleft _ hmem x List.mem_cons_self
      omega
    · refine (List.mem_cons.1 hmem).resolve_right fun hmem => ?_
      have := (List.pairwise_cons.1 hbehind).1 _ hmem
      omega

/-- **A search goes up from a place that all nodes around the span stand above.** -/
theorem Clean.findNode?_climbs (hroot : Clean root) {span : Span} (hspan : span.start < span.stop)
    (hcovers : root.span.covers span = true) (bias : Bias) (trivia : Bool) :
    ∃ s ∈ root.subtree,
      root.findNode? span bias trivia =
        s.ancestors.find? (fun n => n.isNode && (n.extent trivia).covers span) ∧
      ∀ m ∈ root.subnodes, (m.extent trivia).covers span = true → m ∈ s.ancestors := by
  have hempty : span.isEmpty = false := by
    simp only [Span.isEmpty, beq_eq_false_iff_ne]
    omega
  cases trivia with
  | false =>
      refine ⟨root.covering span, (coverIn_mem span).1 _ _ _ _, ?_, fun m hm hcovers => ?_⟩
      · exact findNode?_eq hcovers hempty bias
      · exact covering_above hspan (List.mem_filter.1 hm).1 hcovers
  | true =>
      obtain ⟨x, hx, hstart, hstop, hraw, hcover⟩ := hroot.exists_rawToken hspan hcovers
      obtain ⟨o, ho, hsignificant, howned, howner⟩ : ∃ o ∈ root.subtokens,
          o.isSignificant = true ∧ x ∈ o.owned ∧
            (if x.isTrivia = true then x.triviaOwner? else some x) = some o := by
        by_cases htrivia : x.isTrivia = true
        · rw [if_pos htrivia]
          exact hroot.chain.exists_triviaOwner hroot.ends hx htrivia (by omega)
        · rw [if_neg htrivia]
          exact ⟨x, hx, by simpa [isSignificant] using htrivia, by simp [Site.owned], rfl⟩
      refine ⟨o, (List.mem_filter.1 ho).1, ?_, fun m hm hfull => ?_⟩
      · have hup : (if x.isTrivia = true then
              x.triviaOwner?.bind fun owner => owner.enclosing? fun n => n.fullSpan.covers span
            else x.enclosing? fun n => n.fullSpan.covers span) =
              o.enclosing? fun n => n.fullSpan.covers span := by
          by_cases htrivia : x.isTrivia = true
          · rw [if_pos htrivia] at howner ⊢
            rw [howner, Option.bind_some]
          · rw [if_neg htrivia] at howner ⊢
            rw [Option.some.inj howner]
        have hfind : root.findNode? span bias true =
            o.enclosing? fun n => n.fullSpan.covers span := by
          simp only [findNode?, hcovers, hempty, Bool.not_true, Bool.false_eq_true, if_false,
            if_true, Option.bind_eq_bind]
          by_cases htoken : (root.covering span).isToken = true
          · rw [if_pos htoken, hcover htoken]
            simpa only [Option.bind_some] using hup
          · rw [if_neg htoken, hraw]
            simpa only [Option.bind_some] using hup
        rw [hfind, enclosing?_eq (List.mem_filter.1 ho).2]
        rfl
      · have hfull := covers_iff.1 (show m.fullSpan.covers span = true from hfull)
        exact hroot.mem_ancestors_owner ho hsignificant howned hm ⟨hstart, hstop⟩ (by omega)

/-- The whole tree covers, with or without its trivia, what its span covers. -/
theorem covers_extent {n : Site} {span : Span} (h : n.span.covers span = true) (trivia : Bool) :
    (n.extent trivia).covers span = true := by
  cases trivia with
  | false => exact h
  | true =>
      have hfull := covers_iff.1 (fullSpan_covers n)
      have hspan := covers_iff.1 h
      show n.fullSpan.covers span = true
      exact covers_iff.2 ⟨by omega, by omega⟩

/-- **A search by a span finds the deepest node that covers it.**  In a text without errors, for a
span with at least one byte and both ways to treat trivia, the search finds a node that covers the
span, and every node that covers it is that node or stands above it.  A span that leaves the text
finds nothing. -/
theorem Document.findNode?_deepest {version : Nat} {text : String}
    (hclean : (Document.ofText version text).errors = []) (span : Span) (bias : Bias)
    (trivia : Bool) :
    let root := (Document.ofText version text).root
    (span.start < span.stop → span.stop ≤ text.utf8ByteSize →
      ∃ n ∈ root.subnodes, root.findNode? span bias trivia = some n ∧
        (n.extent trivia).covers span = true ∧
        ∀ m ∈ root.subnodes, (m.extent trivia).covers span = true → m ∈ n.ancestors) ∧
    (text.utf8ByteSize < span.stop → root.findNode? span bias trivia = none) := by
  intro root
  have hroot : Clean root := Document.clean_root hclean
  have hwidth : root.span = ⟨0, text.utf8ByteSize⟩ := by
    show Span.ofLength 0 (parse text).1.width = _
    rw [parse_width, Span.ofLength, Nat.zero_add]
  refine ⟨fun hspan hstop => ?_, fun hstop => ?_⟩
  · have hcovers : root.span.covers span = true := by
      rw [hwidth]
      exact covers_iff.2 ⟨Nat.zero_le _, hstop⟩
    obtain ⟨s, hs, hfind, habove⟩ := hroot.findNode?_climbs hspan hcovers bias trivia
    have hnode : root ∈ root.subnodes := by
      obtain ⟨cs, htree, -⟩ := parse_tree text
      refine List.mem_filter.2 ⟨mem_subtree_self root, ?_⟩
      rw [Site.isNode, show root.tree = _ from htree]
      rfl
    obtain ⟨n, hn⟩ : ∃ n, root.findNode? span bias trivia = some n := by
      rw [hfind, ← Option.isSome_iff_exists, List.find?_isSome]
      have hextent := covers_extent hcovers trivia
      refine ⟨root, habove root hnode hextent, ?_⟩
      rw [hextent, (List.mem_filter.1 hnode).2]
      rfl
    rw [hfind] at hn
    have haccepts := List.find?_some hn
    simp only [Bool.and_eq_true] at haccepts
    refine ⟨n, List.mem_filter.2 ⟨?_, haccepts.1⟩, hfind.trans hn, haccepts.2, fun m hm hextent => ?_⟩
    · exact ancestors_mem hs (List.mem_of_find?_eq_some hn)
    · refine mem_ancestors_of_find? hn (habove m hm hextent) ?_
      rw [hextent, (List.mem_filter.1 hm).2]
      rfl
  · have hcovers : root.span.covers span = false := by
      rw [hwidth, Bool.eq_false_iff]
      exact fun hcovers => Nat.not_le_of_lt hstop (covers_iff.1 hcovers).2
    simp only [findNode?, hcovers, Bool.not_false, if_true]

/-- The comment leads the type of the field, which is the deepest node to cover it with trivia. -/
theorem Document.findNode?_deepest_comment :
    let root := (Document.ofText 1 "class C\n\x7b\n    // x\n    int a;\n\x7d\n").root
    ∃ n ∈ root.subnodes, root.findNode? ⟨14, 18⟩ .following true = some n ∧ n.kind = .type ∧
      ∀ m ∈ root.subnodes, (m.extent true).covers ⟨14, 18⟩ = true → m ∈ n.ancestors := by
  intro root
  have hclean : (Document.ofText 1 "class C\n\x7b\n    // x\n    int a;\n\x7d\n").errors = [] := by
    decide +kernel
  obtain ⟨n, hn, hfind, -, hdeepest⟩ :=
    (Document.findNode?_deepest hclean ⟨14, 18⟩ .following true).1 (by decide) (by decide)
  have hkind : (root.findNode? ⟨14, 18⟩ .following true).map Site.kind = some .type := by
    decide +kernel
  refine ⟨n, hn, hfind, ?_, hdeepest⟩
  rw [hfind] at hkind
  exact Option.some.inj hkind

end CodeMend
