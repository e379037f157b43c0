import CodeMend.Proofs.Edit.Columns
import CodeMend.Proofs.Syntax.Sites
import CodeMend.Proofs.Trivia.Lines

/-!
# Indenting one new line

If the marked span is one line, which starts behind a line break, then no other line starts inside
it; so all that indentation can do is to put white space before the first token of the line
(`Indent.splices_newLine`).
-/

namespace CodeMend

open Tree Site

/-- Behind a line break the list is cut as it would be by itself. -/
theorem linesOf_append {α : Type} {ends : α → Bool} {a : α} (stop : ends a = true) (front rest : List α) :
    linesOf ends ((front ++ [a]) ++ rest) = linesOf ends (front ++ [a]) ++ linesOf ends rest := by
  induction front with
  | nil => simp [linesOf, stop]
  | cons b front ih =>
      rw [List.cons_append, List.cons_append, linesOf, linesOf, ih]
      cases hb : ends b with
      | true => rfl
      | false =>
          rw [if_neg Bool.false_ne_true, if_neg Bool.false_ne_true]
          cases hlines : linesOf ends (front ++ [a]) with
          | nil =>
              have hflatten : (linesOf ends (front ++ [a])).flatten = _ := flatten_linesOf _
              rw [hlines] at hflatten
              simp at hflatten
          | cons l ls => rfl

namespace Indent

variable {f : FormatterSettings} {spans : List Span} {moves : Moves}

/-- A line outside of all spans gets nothing. -/
theorem given_outside {l : Line} (h : inSpans spans l = false) :
    given f spans moves l = (l.indentText, moves) := by
  rw [given, wanted, h, if_neg Bool.false_ne_true]

/-- Lines outside the spans get no splices, and nothing moves there. -/
theorem splices_outside {ls : List Line} (h : ∀ l ∈ ls, inSpans spans l = false) (more : List Line) :
    splices f spans moves (ls ++ more) = splices f spans moves more := by
  induction ls with
  | nil => rfl
  | cons l ls ih =>
      obtain ⟨hl, hls⟩ := List.forall_mem_cons.1 h
      rw [List.cons_append, splices_cons, given_outside hl, splice?_indentText]
      exact ih hls

/-- What becomes of a line without white space before it. -/
theorem splices_single {l : Line} (h : l.indent = none) : splices f spans moves [l] = [] ∨
    ∃ indent, splices f spans moves [l] = [.insert l.first.start ⟨[Snippet.whitespace indent], []⟩] := by
  rw [splices_cons, show splices f spans _ [] = [] from rfl, List.append_nil, splice?, h]
  split
  · exact Or.inl rfl
  · exact Or.inr ⟨_, rfl⟩

theorem first_mem_linesOf {ts : List Site} {l : Line}
    (h : l ∈ (linesOf Site.endsLine ts).filterMap Line.of?) : l.first ∈ ts := by
  obtain ⟨line, hline, hof⟩ := List.mem_filterMap.1 h
  obtain ⟨rest, heq, -⟩ := Line.of?_eq_some hof
  have hflatten : (linesOf Site.endsLine ts).flatten = ts := flatten_linesOf ts
  rw [← hflatten]
  exact List.mem_flatten.2 ⟨line, hline, by rw [heq]; simp⟩

/-- **Indenting one new line**, which stands between a line break and the rest: white space comes
before its first token, or nothing changes. -/
theorem splices_newLine {origin : Nat} {t : Tree} {front line rest : List Site}
    {before first newline : Site}
    (hsplit : (top origin t).subtokens = (front ++ [before]) ++ ((first :: line ++ [newline]) ++ rest))
    (hbefore : before.kind = .newline) (hwidth : 0 < before.tree.width)
    (hfirst : first.kind = .ident) (hline : ∀ s ∈ line, s.endsLine = false)
    (hnewline : newline.kind = .newline) :
    let span := Span.ofLength (widthOfSites (front ++ [before]))
      (widthOfSites (first :: line ++ [newline]))
    splices f [span] moves (Line.all (top origin t)) = [] ∨ ∃ indent,
      splices f [span] moves (Line.all (top origin t)) =
        [.insert (widthOfSites (front ++ [before])) ⟨[Snippet.whitespace indent], []⟩] := by
  intro span
  have hbreak : before.endsLine = true := beq_iff_eq.2 hbefore
  have hinner : ∀ s ∈ first :: line, s.endsLine = false :=
    List.forall_mem_cons.2 ⟨beq_eq_false_iff_ne.2 (by rw [hfirst]; decide), hline⟩
  have hof : Line.of? (first :: line ++ [newline]) = some ⟨none, first⟩ := by
    simp [Line.of?, Line.first?, Line.isPassed, hfirst, Kind.isDirective]
  have hlines : Line.all (top origin t) =
      (linesOf Site.endsLine (front ++ [before])).filterMap Line.of? ++
        (⟨none, first⟩ :: (linesOf Site.endsLine rest).filterMap Line.of?) := by
    rw [Line.all_eq, hsplit, linesOf_append hbreak, linesOf_cons hinner (beq_iff_eq.2 hnewline),
      List.filterMap_append, List.filterMap_cons, hof]
  have hstart : first.start = widthOfSites (front ++ [before]) := by
    have hfirst : (top origin t).subtokens =
        (front ++ [before]) ++ first :: (line ++ [newline] ++ rest) := hsplit.trans (by simp)
    exact start_of_subtokens hfirst
  have hin {s : Site} {left right : List Site} (hs : (top origin t).subtokens = left ++ s :: right)
      (hout : widthOfSites left < span.start ∨ span.stop ≤ widthOfSites left) :
      span.contains s.start = false := by
    rw [start_of_subtokens hs]
    rcases hout with h | h <;> simp [Span.contains] <;> omega
  -- all other lines start further left or further right
  have hleft : ∀ l ∈ (linesOf Site.endsLine (front ++ [before])).filterMap Line.of?,
      inSpans [span] l = false := by
    intro l hl
    obtain ⟨xs, ys, hmem⟩ := List.append_of_mem (first_mem_linesOf hl)
    have hout : widthOfSites xs < widthOfSites (front ++ [before]) := by
      rw [widthOfSites_append, widthOfSites_cons]
      rcases append_eq_append_cons_cases hmem with ⟨more, rfl, -⟩ | ⟨more, rfl, hlast⟩
      · rw [widthOfSites_append]
        omega
      · have hnil : more = [] := by
          have hlength := congrArg List.length hlast
          simp only [List.length_append, List.length_cons, List.length_nil] at hlength
          exact List.eq_nil_of_length_eq_zero (by omega)
        rw [hnil, List.append_nil]
        omega
    have hs : (top origin t).subtokens =
        xs ++ l.first :: (ys ++ ((first :: line ++ [newline]) ++ rest)) := by
      rw [hsplit, hmem]
      simp
    rw [inSpans, List.any_cons, hin hs (Or.inl hout)]
    rfl
  have hright : ∀ l ∈ (linesOf Site.endsLine rest).filterMap Line.of?, inSpans [span] l = false := by
    intro l hl
    obtain ⟨xs, ys, hmem⟩ := List.append_of_mem (first_mem_linesOf hl)
    have hs : (top origin t).subtokens =
        ((front ++ [before]) ++ ((first :: line ++ [newline]) ++ xs)) ++ l.first :: ys := by
      rw [hsplit, hmem]
      simp
    have hout : span.stop ≤ widthOfSites ((front ++ [before]) ++ ((first :: line ++ [newline]) ++ xs)) := by
      rw [widthOfSites_append, widthOfSites_append (first :: line ++ [newline])]
      show widthOfSites _ + widthOfSites _ ≤ _
      omega
    rw [inSpans, List.any_cons, hin hs (Or.inr hout)]
    rfl
  have hsplices : splices f [span] moves (Line.all (top origin t)) =
      splices f [span] moves [⟨none, first⟩] := by
    rw [hlines, splices_outside hleft]
    have hrest (moves : Moves) := @splices_outside f [span] moves _ hright []
    simp only [List.append_nil] at hrest
    rw [splices_cons, splices_cons, hrest]
  rw [hsplices, ← hstart]
  exact splices_single rfl

end Indent

end CodeMend
