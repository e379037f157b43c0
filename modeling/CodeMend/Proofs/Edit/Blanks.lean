import CodeMend.Edit.Editor
import CodeMend.Proofs.Trivia.Gaps
import CodeMend.Syntax.Locate

/-!
# Editing blank lines

Where the gap behind a word has blank lines too many or too few, the editor accepts the splice that
settles it (`Document.deleteSpan_blankLines`, `Document.insertAt_lineBreak`), and from the start of
the blank lines the way back leads to the word (`Clean.findToken?_blankLines`).
-/

namespace CodeMend

open Tree Site

variable {root : Site}

/-- The tokens around the trivia behind a token. -/
theorem Clean.split_after (hroot : Clean root) {a : Site} (ha : a ∈ root.subtokens) :
    ∃ left rest, root.subtokens = left ++ a :: (a.triviaAfter ++ rest) := by
  obtain ⟨left, right, hsplit⟩ := List.append_of_mem ha
  refine ⟨left, right.dropWhile Site.isTrivia, ?_⟩
  rw [triviaAfter, hroot.chain.after left a right hsplit, List.takeWhile_append_dropWhile, hsplit]

/-- Tokens cut behind the first line break of a gap; what is cut away, and the way back to the word
before it, is white space and line breaks. -/
structure BlankCut (root a : Site) (span : Span) (front : List Site) (line : Site)
    (cut after : List Site) : Prop where
  at_span : CutAt root span (front ++ [line]) cut after
  back : ∃ left first, front = left ++ a :: first ∧ ∀ t ∈ first, t.isTrivia = true
  line_kind : line.kind = .newline
  line_trivia : line.isTrivia = true
  cut_trivia : ∀ t ∈ cut, t.isTrivia = true
  cut_blank : IsBlankRun cut

/-- The blank lines of a gap are cut out of the row of tokens: behind the line break that ends a
line, up to and with the last line break of the gap. -/
theorem Clean.exists_blankCut (hroot : Clean root) {a : Site} (ha : a ∈ root.words) {span : Span}
    (h : a.gapAfter.blankLines? = some span) :
    ∃ front line cut after, BlankCut root a span front line cut after := by
  obtain ⟨left, rest, hsplit⟩ := hroot.split_after (mem_words.1 ha).1
  have hkind : a.gapAfter.kind = .blankLine := by
    by_contra hne
    simp [Gap.blankLines?, hne] at h
  obtain ⟨first, line, gone, final, last, hrun, hline, -, -, -, hhead, hend⟩ := exists_blank hkind
  have hrun : a.triviaAfter = first ++ line :: ((gone ++ [final]) ++ last) := hrun
  have htrivia : ∀ t ∈ a.triviaAfter, t.isTrivia = true := fun t ht =>
    List.mem_takeWhile_imp ht
  have htoken : ∀ t ∈ a.triviaAfter, t.isToken = true := fun t ht =>
    (List.mem_filter.1 (show t ∈ root.subtokens by rw [hsplit]; simp [ht])).2
  have hblank : IsBlankRun a.triviaAfter :=
    isBlankRun_of_kind (g := a.gapAfter) htrivia htoken (by simp [hkind])
  rw [hrun] at hsplit htrivia hblank
  obtain rfl : span = ⟨line.stop, final.stop⟩ := by
    simpa [Gap.blankLines?, hkind, hhead, hend] using h.symm
  have hcut : root.subtokens =
      ((left ++ a :: first) ++ [line]) ++ ((gone ++ [final]) ++ (last ++ rest)) := by
    rw [hsplit]
    simp
  refine ⟨left ++ a :: first, line, gone ++ [final], last ++ rest, ⟨hcut, ?_, ?_⟩,
    ⟨left, first, rfl, fun t ht => htrivia t (by simp [ht])⟩, hline, htrivia line (by simp),
    fun t ht => htrivia t ?_, fun t ht => hblank t ?_⟩
  · rw [hroot.chain.stop_eq (by rw [hcut]; simp : root.subtokens =
      (left ++ a :: first) ++ line :: ((gone ++ [final]) ++ (last ++ rest)))]
  · rw [hroot.chain.stop_eq (by rw [hcut]; simp : root.subtokens =
        (left ++ a :: first) ++ line :: ((gone ++ [final]) ++ (last ++ rest))),
      hroot.chain.stop_eq (by rw [hcut]; simp : root.subtokens =
        (left ++ a :: first ++ [line] ++ gone) ++ final :: (last ++ rest)),
      ← widthOfSites_append]
    simp
  · simp only [List.mem_append, List.mem_cons] at ht ⊢
    tauto
  · simp only [List.mem_append, List.mem_cons] at ht ⊢
    tauto

section

variable {a line : Site} {span : Span} {front cut after : List Site}

/-- The first token that reaches the cut is the line break before it. -/
theorem BlankCut.touching (hroot : Clean root) (h : BlankCut root a span front line cut after) :
    ∃ others, root.touching span.start = line :: others := by
  have hsplit : root.subtokens = front ++ line :: (cut ++ after) := by
    rw [h.at_span.tokens]
    simp
  have hstop : line.stop = span.start := by
    rw [hroot.chain.stop_eq hsplit, h.at_span.start]
  have hsolid : line.start < line.stop := by
    refine (hroot.solid line (by rw [hsplit]; simp)).resolve_right fun heof => ?_
    rw [h.line_kind] at heof
    cases heof
  have hline : (!line.span.isEmpty && line.span.touches span.start) = true := by
    have hne : line.span.start ≠ line.span.stop := Nat.ne_of_lt hsolid
    have htouches : line.span.start ≤ span.start ∧ span.start ≤ line.span.stop := by
      show line.start ≤ span.start ∧ span.start ≤ line.stop
      omega
    simpa [Span.isEmpty, Span.touches, hne] using htouches
  have hfront : front.filter (fun t => !t.span.isEmpty && t.span.touches span.start) = [] := by
    refine List.filter_eq_nil_iff.2 fun t ht htouches => ?_
    have hle : t.stop ≤ line.start := by
      rw [hroot.chain.start front line _ hsplit]
      exact hroot.chain.before_cut hsplit ht
    have : span.start ≤ t.stop :=
      of_decide_eq_true (Bool.and_eq_true_iff.1 (Bool.and_eq_true_iff.1 htouches).2).2
    omega
  rw [Site.touching, hsplit, List.filter_append, hfront, List.nil_append, List.filter_cons,
    if_pos hline]
  exact ⟨_, rfl⟩

/-- The cut lies within the text. -/
theorem BlankCut.covers (hroot : Clean root) (h : BlankCut root a span front line cut after) :
    root.span.covers span = true := by
  have hstart := h.at_span.start
  have hstop := h.at_span.stop
  have hwidth := congrArg widthOfSites h.at_span.tokens
  simp only [widthOfSites_append] at hstart hwidth
  rw [hroot.span_eq, covers_iff]
  dsimp only
  omega

/-- The way back from the start of the cut. -/
theorem BlankCut.findToken? (hroot : Clean root) (h : BlankCut root a span front line cut after)
    (ha : a.isSignificant = true) : root.findToken? span.start .previous = some a := by
  obtain ⟨others, htouching⟩ := h.touching hroot
  obtain ⟨left, first, hback, hfirst⟩ := h.back
  have hsplit : root.subtokens = front ++ line :: (cut ++ after) := by
    rw [h.at_span.tokens]
    simp
  have htouches : root.span.touches span.start = true := by
    obtain ⟨hstart, hstop⟩ := covers_iff.1 (h.covers hroot)
    have := h.at_span.stop
    have hin : root.span.start ≤ span.start ∧ span.start ≤ root.span.stop := by omega
    simpa [Span.touches] using hin
  have hprev : line.prevSignificant? = some a := by
    rw [prevSignificant?, hroot.chain.before front line _ hsplit, hback, List.reverse_append,
      List.reverse_cons, List.append_assoc, List.find?_append]
    have hnone : first.reverse.find? isSignificant = none := by
      refine List.find?_eq_none.2 fun t ht => ?_
      simp [isSignificant, hfirst t (List.mem_reverse.1 ht)]
    rw [hnone, Option.none_or]
    simp [ha]
  have hinsignificant : line.isSignificant = false := by
    simp [isSignificant, h.line_trivia]
  simp [Site.findToken?, rawTokenAt?, htouches, htouching, hinsignificant, hprev]

/-- No significant token reaches into the cut. -/
theorem BlankCut.trivia_of_overlap (hroot : Clean root)
    (h : BlankCut root a span front line cut after) {t : Site} (ht : t ∈ root.subtokens)
    (hoverlap : (t.span.inter? span).any (fun common => !common.isEmpty) = true) :
    t.isTrivia = true := by
  have hin : t.start < span.stop ∧ span.start < t.stop := by
    rw [Span.inter?] at hoverlap
    split at hoverlap
    · cases hoverlap
    · next hle =>
      have hne : max t.span.start span.start ≠ min t.span.stop span.stop := by
        simpa [Span.isEmpty] using hoverlap
      have hlt : max t.start span.start < min t.stop span.stop :=
        Nat.lt_of_le_of_ne (Nat.le_of_not_lt hle) hne
      omega
  rw [h.at_span.tokens] at ht
  rcases List.mem_append.1 ht with ht | ht
  · have := h.at_span.before_le hroot ht
    omega
  · rcases List.mem_append.1 ht with ht | ht
    · exact h.cut_trivia t ht
    · have := h.at_span.le_after hroot ht
      omega

/-- No directive stands in the cut. -/
theorem BlankCut.unbalancedIn_eq_nil (hroot : Clean root)
    (h : BlankCut root a span front line cut after) : root.unbalancedIn span = [] := by
  have hnone : root.directivesIn span = [] := by
    rw [h.at_span.directivesIn_eq hroot]
    refine List.filter_eq_nil_iff.2 fun t ht => ?_
    rcases h.cut_blank t ht with hkind | hkind
    · simp [hkind, Kind.isDirective]
    · simp [hkind, Kind.isDirective]
  rw [unbalancedIn, hnone]
  rfl

end

/-- **From blank lines back to the word before them.** -/
theorem Clean.findToken?_blankLines (hroot : Clean root) {a : Site} (ha : a ∈ root.words)
    {span : Span} (h : a.gapAfter.blankLines? = some span) :
    root.findToken? span.start .previous = some a := by
  obtain ⟨front, line, cut, after, hcut⟩ := hroot.exists_blankCut ha h
  exact hcut.findToken? hroot (mem_words.1 ha).2

variable {d : Document}

/-- The walk over a span meets tokens of the text only. -/
theorem Site.mem_subtokens_of_mem_tokensIn (hroot : Clean root) {span : Span} {t : Site}
    (h : t ∈ root.tokensIn span) : t ∈ root.subtokens := by
  by_cases hin : span.start < span.stop ∧ span.start < widthOfSites root.subtokens
  · obtain ⟨left, x, right, hls, -, htokens⟩ := hroot.tokensIn_eq hin.1 hin.2
    rw [htokens] at h
    rw [hls]
    exact List.mem_append_right _ ((List.takeWhile_subset _) h)
  · rw [hroot.tokensIn_eq_nil hin] at h
    cases h

/-- **The editor deletes blank lines.** -/
theorem Document.deleteSpan_blankLines (hroot : Clean d.root) {a : Site} (ha : a ∈ d.root.words)
    {span : Span} (h : a.gapAfter.blankLines? = some span) :
    Editor.deleteSpan ⟨d, []⟩ span = .ok ⟨d, [.delete span]⟩ := by
  obtain ⟨front, line, cut, after, hcut⟩ := hroot.exists_blankCut ha h
  have htouched : ((d.root.tokensIn span).filter fun t =>
      (t.span.inter? span).any (fun common => !common.isEmpty)).any isSignificant = false := by
    refine List.any_eq_false.2 fun t ht => ?_
    obtain ⟨hin, hoverlap⟩ := List.mem_filter.1 ht
    have htrivia := hcut.trivia_of_overlap hroot (mem_subtokens_of_mem_tokensIn hroot hin) hoverlap
    simp [isSignificant, htrivia]
  simp only [Editor.deleteSpan, hcut.covers hroot, htouched, Editor.checkSpanBalance,
    hcut.unbalancedIn_eq_nil hroot]
  rfl

/-- **The editor inserts a line break** behind the one of a gap. -/
theorem Document.insertAt_lineBreak (hroot : Clean d.root) {a : Site} (ha : a ∈ d.root.words)
    {offset : Nat} (h : a.gapAfter.blankLineInsertion? = some offset) (r : Replacement) :
    Editor.insertAt ⟨d, []⟩ offset r = .ok ⟨d, [.insert offset r]⟩ := by
  obtain ⟨left, rest, hsplit⟩ := hroot.split_after (mem_words.1 ha).1
  obtain ⟨line, hline, rfl⟩ : ∃ line ∈ a.triviaAfter, line.stop = offset := by
    unfold Gap.blankLineInsertion? at h
    split at h
    · obtain ⟨line, hhead, rfl⟩ := Option.map_eq_some_iff.1 h
      exact ⟨line, (List.mem_filter.1 (List.mem_of_head? hhead)).1, rfl⟩
    · cases h
  have hle : line.stop ≤ d.length := by
    show line.stop ≤ d.root.tree.width
    rw [hroot.width_eq]
    exact hroot.chain.before_cut (List.append_nil _).symm (by rw [hsplit]; simp [hline])
  rw [Editor.insertAt, if_neg (Nat.not_lt.2 hle)]
  rfl

end CodeMend
