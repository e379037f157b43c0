import CodeMend.Proofs.Edit.Columns
import CodeMend.Proofs.Edit.Denting

/-!
# Indentation comes and goes

The formatter gives each line its white space by one splice.  The run lemma `relays_lines` puts the
splices together, line by line from the end: each line becomes what `Relaid` says, and the tree
without indentation stays.  So the formatter succeeds on every text (`apply_lines`) and changes
nothing but indentation (`Document.indents_only_lines`).
-/

namespace CodeMend

open Tree Lexer

/-! ## Tokens with text -/

namespace Site

theorem tree_of_isToken {s : Site} (h : s.isToken = true) : s.tree = .token s.kind s.text := by
  obtain ⟨tree, start, above, origin⟩ := s
  cases tree with
  | token k text => simp [kind, Site.text, Tree.kind, Tree.text, Tree.tokens]
  | node k cs => cases h

end Site

/-- Tokens before one that is not the end of the file have text, and so has that one. -/
theorem Tree.Regular.solid_before {t : Tree} (h : t.Regular) {front back : Stored} {x : Kind × String}
    (htokens : t.tokens = front ++ x :: back) (hx : x.1 ≠ .endOfFile) :
    ∀ y ∈ front ++ [x], y.2 ≠ "" := by
  obtain ⟨body, hbody, hsolid⟩ := h.ends
  rw [htokens] at hbody
  rcases List.eq_nil_or_concat back with rfl | ⟨others, last, rfl⟩
  · have hlast := (List.append_inj' hbody rfl).2
    obtain rfl : x = (.endOfFile, "") := by simpa using hlast
    exact absurd rfl hx
  · have hsame : (front ++ x :: others) ++ [last] = body ++ [(.endOfFile, "")] := by simpa using hbody
    rw [← (List.append_inj' hsame rfl).1] at hsolid
    intro y hy
    refine hsolid y ?_
    simp only [List.mem_append, List.mem_cons, List.not_mem_nil, or_false] at hy ⊢
    tauto

namespace Indent

/-! ## The line that the formatter makes of a line -/

/-- White space; none for the empty text. -/
def spaceOf (text : String) : List Tree := if text = "" then [] else [Snippet.whitespace text]

theorem isSpace_of_mem_spaceOf {text : String} : ∀ t ∈ spaceOf text, t.isSpace = true := by
  intro t ht
  rw [spaceOf] at ht
  split at ht
  · cases ht
  · rw [List.mem_singleton.1 ht]
    rfl

/-- White space that is put in place is one token with text, or none at all. -/
theorem mem_spaceOf (text : String) :
    ∀ x ∈ tokensAll (spaceOf text), x.1 = .whitespace ∧ x.2 ≠ "" := by
  intro x hx
  rw [spaceOf] at hx
  split at hx
  · cases hx
  · next hne =>
    obtain rfl := List.mem_singleton.1 hx
    exact ⟨rfl, hne⟩

/-- What a line becomes: one without a word or a comment stays, another gets its white space, which
memory holds. -/
inductive Relaid (f : FormatterSettings) (spans : List Span) : List Site → Stored → Prop
  | keep {l : List Site} (none : Line.of? l = none) : Relaid f spans l (l.map Site.stored)
  | set {line : Line} {rest : List Site} (moves : Moves)
      (some : Line.of? (line.indent.toList ++ line.first :: rest) = some line)
      (held : ∀ t ∈ wanted f spans moves line, Held f t.1) :
      Relaid f spans (line.indent.toList ++ line.first :: rest)
        (tokensAll (spaceOf (given f spans moves line).1) ++ (line.first :: rest).map Site.stored)

/-- A row that differs from another in the white space at the front of lines. -/
structure Reindented (cs cs' : List Tree) : Prop where
  tight : tightAll cs' = tightAll cs
  dedented : dedentAll true cs' = dedentAll true cs
  fresh : EveryNodeAmong FreshNode cs'

theorem Reindented.step {cs₀ cs cs' old new : List Tree} {front : Stored} (h : Reindented cs₀ cs)
    (hdent : Dent old new front cs cs') (hold : ∀ t ∈ old, t.isSpace = true)
    (hnew : ∀ t ∈ new, t.isSpace = true) (hfront : lineStartAfter true front = true) :
    Reindented cs₀ cs' where
  tight := (hdent.tightAll_eq hold hnew).trans h.tight
  dedented := (hdent.dedented hold hnew hfront).trans h.dedented
  fresh := hdent.fresh hnew h.fresh

/-- The tokens of a row and a line in it, which starts behind the given tokens. -/
structure Holds (cs : List Tree) (line : Line) (front back : Stored) : Prop where
  tokens : tokensAll cs = front ++ (line.indent.toList.map Site.stored ++ line.first.stored :: back)
  solid : ∀ y ∈ front, y.2 ≠ ""
  first : line.first.stored.2 ≠ ""
  start : line.first.start = widthOf front + widthOf (line.indent.toList.map Site.stored)
  indent : ∀ w ∈ line.indent, w.tree = Snippet.whitespace w.text ∧ w.text ≠ "" ∧
    w.start = widthOf front

variable {cs : List Tree} {line : Line} {front back : Stored}

theorem Holds.isSpace (h : Holds cs line front back) :
    ∀ t ∈ line.indent.toList.map Site.tree, t.isSpace = true := by
  intro t ht
  obtain ⟨w, hw, rfl⟩ := List.mem_map.1 ht
  rw [(h.indent w (Option.mem_toList.1 hw)).1]
  rfl

theorem stored_of_tree {w : Site} (h : w.tree = Snippet.whitespace w.text) :
    w.stored = (.whitespace, w.text) := by
  rw [Site.stored, Site.kind, h]
  rfl

/-- The white space of a line, made anew from its text, is what the line has. -/
theorem Holds.spaceOf_indentText (h : Holds cs line front back) :
    tokensAll (spaceOf line.indentText) = line.indent.toList.map Site.stored := by
  obtain ⟨indent, first⟩ := line
  cases indent with
  | none => rfl
  | some w =>
      obtain ⟨htree, htext, -⟩ := h.indent w rfl
      show tokensAll (spaceOf w.text) = [w.stored]
      rw [spaceOf, if_neg htext, stored_of_tree htree]
      rfl

/-- **The splice of a line** swaps its white space. -/
theorem splice?_dent (h : Holds cs line front back) (hfresh : EveryNodeAmong FreshNode cs) (k : Kind)
    {text : String} {s : Splice} (hs : splice? line text = some s) :
    ∃ cs', (Tree.node k cs).splice s = .ok (.node k cs') ∧
      Dent (line.indent.toList.map Site.tree) (spaceOf text) front cs cs' := by
  obtain ⟨indent, first⟩ := line
  rw [splice?] at hs
  split at hs
  · cases hs
  next hne =>
  cases indent with
  | none =>
      have htext : text ≠ "" := by simpa [Line.indentText] using hne
      obtain rfl := Option.some.inj hs
      have hstart : first.start = 0 + widthOf front := by simpa using h.start
      obtain ⟨cs', hcs', hdent⟩ := (insert_dent (spaceOf text)).2 cs 0 front first.stored back
        h.tokens h.solid h.first
      refine ⟨cs', ?_, hdent⟩
      rw [spaceOf, if_neg htext, ← hstart] at hcs'
      rw [splice, if_pos (by simp [Splice.insert, Span.point, Span.isEmpty])]
      show Tree.node k <$> insertAmong 0 first.start [Snippet.whitespace text] cs = _
      rw [hcs']
      rfl
  | some w =>
      obtain ⟨htree, hsolid, hstart⟩ := h.indent w rfl
      have htokens : tokensAll cs = front ++ (.whitespace, w.text) :: (first.stored :: back) := by
        rw [h.tokens, ← stored_of_tree htree]
        rfl
      have hspan : w.span = ⟨0 + widthOf front, 0 + widthOf front + w.text.utf8ByteSize⟩ := by
        rw [Site.span, htree, hstart, Nat.zero_add]
        rfl
      have hspace : spaceOf text = if text.isEmpty then [] else [Snippet.whitespace text] := by
        simp [spaceOf, String.isEmpty_iff]
      obtain ⟨cs', hcs', hdent⟩ := (replace_dent hsolid (spaceOf text)).2 cs hfresh 0 front
        (first.stored :: back) htokens h.solid
      have hempty : w.span.isEmpty = false := by
        have := Nat.pos_of_ne_zero fun hzero => hsolid (String.utf8ByteSize_eq_zero_iff.1 hzero)
        rw [hspan]
        simp [Span.isEmpty]
        omega
      have hsplice : (Tree.node k cs).splice ⟨w.span, none, ⟨spaceOf text, []⟩⟩ = .ok (.node k cs') := by
        rw [splice]
        dsimp only
        rw [hempty, if_neg Bool.false_ne_true, hspan, replaceIn, hcs']
        rfl
      have hold : [w].map Site.tree = [.token .whitespace w.text] := congrArg (fun t => [t]) htree
      refine ⟨cs', ?_, hold ▸ hdent⟩
      rw [hspace] at hsplice
      dsimp only at hs
      split at hs
      · next hnone =>
        obtain rfl := Option.some.inj hs
        rw [if_pos hnone] at hsplice
        exact hsplice
      · next hsome =>
        obtain rfl := Option.some.inj hs
        rw [if_neg hsome] at hsplice
        exact hsplice

/-! ## All lines -/

section Run

variable {f : FormatterSettings} {spans : List Span} {k : Kind} {cs₀ : List Tree} {origin : Nat}

/-- Behind the given tokens, the splices of the lines make of each what it becomes. -/
def Relays (f : FormatterSettings) (spans : List Span) (k : Kind) (cs₀ : List Tree) (front : Stored)
    (ls : List (List Site)) (moves : Moves) : Prop :=
  ∃ cs ys, Patch.spliceAll (.node k cs₀) (splices f spans moves (ls.filterMap Line.of?)) =
      .ok (.node k cs) ∧
    tokensAll cs = front ++ ys.flatten ∧ List.Forall₂ (Relaid f spans) ls ys ∧ Reindented cs₀ cs

/-- A line of a tree lies in any row with the same tokens up to its end. -/
theorem holds_of_split (hreg : (Tree.node k cs₀).Regular) {left rest right : List Site}
    (hsplit : (Site.top origin (.node k cs₀)).subtokens =
      left ++ (line.indent.toList ++ line.first :: rest) ++ right)
    (hindent : ∀ w ∈ line.indent, w.kind = .whitespace) (hpassed : Line.isPassed line.first.kind = false)
    (htokens : tokensAll cs = (left ++ (line.indent.toList ++ line.first :: rest)).map Site.stored ++ back) :
    Holds cs line (left.map Site.stored) (rest.map Site.stored ++ back) := by
  have hfirst : (Site.top origin (.node k cs₀)).subtokens =
      (left ++ line.indent.toList) ++ line.first :: (rest ++ right) := by
    rw [hsplit]
    simp
  have hstored : (Tree.node k cs₀).tokens =
      (left ++ line.indent.toList).map Site.stored ++
        line.first.stored :: (rest ++ right).map Site.stored := by
    rw [show (Tree.node k cs₀).tokens = _ from (Site.map_stored_subtokens (Site.top origin _)).symm,
      hfirst, List.map_append, List.map_cons]
  have hsolid := hreg.solid_before hstored (by
    rintro hkind
    have hkind : line.first.kind = .endOfFile := hkind
    rw [hkind] at hpassed
    cases hpassed)
  refine ⟨?_, fun y hy => hsolid y (by simp [hy]), hsolid _ (by simp), ?_, fun w hw => ?_⟩
  · rw [htokens]
    simp
  · have hstart := Site.subtokens_start.1 (.node k cs₀) origin 0 [] _ _ _ hfirst
    rw [hstart, List.map_append, widthOf_append, Nat.zero_add]
  · have hmem : w ∈ line.indent.toList := Option.mem_toList.2 hw
    have htoken : w.isToken = true := (List.mem_filter.1
      (show w ∈ (Site.top origin (.node k cs₀)).subtokens by rw [hsplit]; simp [hmem])).2
    have hstart := Site.subtokens_start.1 (.node k cs₀) origin 0 [] left w
      (line.first :: rest ++ right) (by
        rw [show (Site.subtreeOf origin 0 [] (.node k cs₀)).filter Site.isToken = _ from hsplit,
          show line.indent = some w from hw]
        simp)
    refine ⟨?_, hsolid w.stored (List.mem_append_left _ (List.mem_map_of_mem ?_)),
      by rw [hstart, Nat.zero_add]⟩
    swap
    · exact List.mem_append_right _ hmem
    rw [Site.tree_of_isToken htoken, hindent w hw]
    rfl

/-- **The step of the run**: the line before those that are done. -/
theorem relays_cons (hreg : (Tree.node k cs₀).Regular) {left l right : List Site}
    {ls : List (List Site)}
    (hsplit : (Site.top origin (.node k cs₀)).subtokens = left ++ l ++ right)
    (hstart : lineStartAfter true (left.map Site.stored) = true)
    (hrest : ∀ moves, (∀ t ∈ targets f spans moves (ls.filterMap Line.of?), Held f t.2) →
      Relays f spans k cs₀ ((left ++ l).map Site.stored) ls moves) (moves : Moves)
    (hheld : ∀ t ∈ targets f spans moves ((l :: ls).filterMap Line.of?), Held f t.2) :
    Relays f spans k cs₀ (left.map Site.stored) (l :: ls) moves := by
  -- a line of white space only is left as it is
  cases hof : Line.of? l with
  | none =>
      rw [List.filterMap_cons_none hof] at hheld
      obtain ⟨cs, ys, hall, htokens, hlines, hre⟩ := hrest moves hheld
      refine ⟨cs, l.map Site.stored :: ys, ?_, ?_, .cons (.keep hof) hlines, hre⟩
      · rw [List.filterMap_cons_none hof]
        exact hall
      · rw [htokens]
        simp
  | some line =>
      obtain ⟨rest, rfl, hindent, hpassed, -⟩ := Line.of?_eq_some hof
      rw [List.filterMap_cons_some hof, targets_cons, List.forall_mem_append] at hheld
      obtain ⟨cs, ys, hall, htokens, hlines, hre⟩ := hrest (given f spans moves line).2 hheld.2
      have hholds := holds_of_split hreg hsplit hindent hpassed htokens
      have hwanted : ∀ t ∈ wanted f spans moves line, Held f t.1 := fun t ht =>
        hheld.1 (line, t.1) (Option.mem_toList.2 (Option.map_eq_some_iff.2 ⟨t, ht, rfl⟩))
      have hline : Relaid f spans _ _ := .set moves hof hwanted
      have hlines := List.Forall₂.cons hline hlines
      rw [Relays, List.filterMap_cons_some hof, splices_cons]
      -- a line that stands right already gets no splice
      cases hs : splice? line (given f spans moves line).1 with
      | none =>
          have htext := eq_of_splice?_none hs
          refine ⟨cs, _, hall, ?_, hlines, hre⟩
          rw [htokens, List.flatten_cons, htext, hholds.spaceOf_indentText]
          simp
      | some s =>
          obtain ⟨cs', hcs', hdent⟩ := splice?_dent hholds hre.fresh k hs
          obtain ⟨back, hold, hnew⟩ := hdent.tokens
          refine ⟨cs', _, ?_, ?_, hlines,
            hre.step hdent hholds.isSpace isSpace_of_mem_spaceOf hstart⟩
          · rw [Option.toList_some, List.singleton_append, Patch.spliceAll, hall]
            exact hcs'
          · -- what stands behind the white space is what stood there
            have hback : tokensAll (line.indent.toList.map Site.tree) ++ back =
                line.indent.toList.map Site.stored ++
                  ((line.first :: rest).map Site.stored ++ ys.flatten) := by
              have hsame : left.map Site.stored ++
                  (tokensAll (line.indent.toList.map Site.tree) ++ back) =
                  left.map Site.stored ++ (line.indent.toList.map Site.stored ++
                    ((line.first :: rest).map Site.stored ++ ys.flatten)) := by
                rw [← hold, htokens]
                simp
              exact List.append_cancel_left hsame
            have htrees : tokensAll (line.indent.toList.map Site.tree) =
                line.indent.toList.map Site.stored := by
              obtain ⟨indent, first⟩ := line
              cases indent with
              | none => rfl
              | some w =>
                  obtain ⟨htree, -, -⟩ := hholds.indent w rfl
                  show tokensAll [w.tree] = [w.stored]
                  rw [htree, stored_of_tree htree]
                  rfl
            rw [htrees] at hback
            rw [hnew, List.append_cancel_left hback]
            simp

/-- **The run lemma**: the splices of all lines from some line on. -/
theorem relays_lines (f : FormatterSettings) (spans : List Span)
    (hreg : (Tree.node k cs₀).Regular) {left : List Site} {ls : List (List Site)}
    (hls : Lines Site.endsLine ls)
    (hsplit : (Site.top origin (.node k cs₀)).subtokens = left ++ ls.flatten)
    (hstart : lineStartAfter true (left.map Site.stored) = true) (moves : Moves)
    (hheld : ∀ t ∈ targets f spans moves (ls.filterMap Line.of?), Held f t.2) :
    Relays f spans k cs₀ (left.map Site.stored) ls moves := by
  have hnil {left : List Site}
      (hsplit : (Site.top origin (.node k cs₀)).subtokens = left) (moves : Moves) :
      Relays f spans k cs₀ (left.map Site.stored) [] moves := by
    obtain ⟨_, _, htree, hfresh⟩ := hreg.fresh
    obtain ⟨rfl, rfl⟩ := Tree.node.inj htree
    refine ⟨cs₀, [], rfl, ?_, .nil, ⟨rfl, rfl, hfresh⟩⟩
    rw [← hsplit, Site.map_stored_subtokens]
    exact (List.append_nil _).symm
  induction hls generalizing left moves with
  | nil => exact hnil (by simpa using hsplit) moves
  | @last l ne inner =>
      have hlast : (Site.top origin (.node k cs₀)).subtokens = left ++ l ++ [] := by
        simpa using hsplit
      exact relays_cons hreg hlast hstart (fun moves _ => hnil (by simpa using hlast) moves) moves
        hheld
  | @cons inner a ls hinner hstop rest ih =>
      have hsplit : (Site.top origin (.node k cs₀)).subtokens =
          left ++ (inner ++ [a]) ++ ls.flatten := by simpa using hsplit
      refine relays_cons hreg hsplit hstart (fun moves => ih hsplit ?_ moves) moves hheld
      have hkind : a.kind = .newline := beq_iff_eq.1 hstop
      simp [lineStartAfter, nextLineStart, Site.stored, hkind]

/-- The splice of a line lies at its front. -/
theorem Holds.span (h : Holds cs line front back) {text : String} {s : Splice}
    (hs : splice? line text = some s) :
    widthOf front ≤ s.span.start ∧ s.span.start ≤ s.span.stop ∧ s.span.stop ≤ line.first.start := by
  obtain ⟨indent, first⟩ := line
  have hstart := h.start
  rw [splice?] at hs
  split at hs
  · cases hs
  cases indent with
  | none =>
      obtain rfl := Option.some.inj hs
      have hspan : (Splice.insert first.start ⟨[Snippet.whitespace text], []⟩).span =
        ⟨first.start, first.start⟩ := rfl
      rw [hspan]
      simp only [Option.toList_none, List.map_nil, widthOf_nil] at hstart ⊢
      omega
  | some w =>
      obtain ⟨htree, -, hw⟩ := h.indent w rfl
      have hspan : s.span = ⟨widthOf front, widthOf front + w.text.utf8ByteSize⟩ := by
        have hsame : s.span = w.span := by
          dsimp only at hs
          split at hs
          · obtain rfl := Option.some.inj hs
            rfl
          · obtain rfl := Option.some.inj hs
            rfl
        rw [hsame, Site.span, htree, hw]
        rfl
      rw [hspan]
      simp only [Option.toList_some, List.map_cons, List.map_nil, widthOf_cons, widthOf_nil,
        stored_of_tree htree] at hstart
      dsimp only
      omega

/-- **The splices follow each other**, with a token between any two. -/
theorem splices_apart (f : FormatterSettings) (spans : List Span)
    (hreg : (Tree.node k cs₀).Regular) {left : List Site} {ls : List (List Site)}
    (hsplit : (Site.top origin (.node k cs₀)).subtokens = left ++ ls.flatten) (moves : Moves) :
    (∀ s ∈ splices f spans moves (ls.filterMap Line.of?),
      widthOf (left.map Site.stored) ≤ s.span.start ∧ s.span.start ≤ s.span.stop ∧
        s.span.stop ≤ widthOf (tokensAll cs₀)) ∧
    (splices f spans moves (ls.filterMap Line.of?)).Pairwise
      (fun s t => s.span.stop < t.span.start) := by
  induction ls generalizing left moves with
  | nil => exact ⟨fun s hs => absurd hs List.not_mem_nil, List.Pairwise.nil⟩
  | cons l ls ih =>
      have hsplit : (Site.top origin (.node k cs₀)).subtokens = left ++ l ++ ls.flatten := by
        simpa using hsplit
      have hleft : widthOf (left.map Site.stored) ≤ widthOf ((left ++ l).map Site.stored) := by
        rw [List.map_append, widthOf_append]
        omega
      cases hof : Line.of? l with
      | none =>
          obtain ⟨hspans, hpairs⟩ := ih hsplit moves
          rw [List.filterMap_cons_none hof]
          refine ⟨fun s hs => ?_, hpairs⟩
          have := hspans s hs
          omega
      | some line =>
          obtain ⟨rest, rfl, hindent, hpassed, -⟩ := Line.of?_eq_some hof
          obtain ⟨hspans, hpairs⟩ := ih hsplit (given f spans moves line).2
          have htokens : tokensAll cs₀ =
              (left ++ (line.indent.toList ++ line.first :: rest)).map Site.stored ++
                ls.flatten.map Site.stored := by
            rw [← List.map_append, ← hsplit]
            exact (Site.map_stored_subtokens (Site.top origin (.node k cs₀))).symm
          have hholds := holds_of_split hreg hsplit hindent hpassed htokens
          -- the first token of the line lies between its splice and the next one
          have hfirst : line.first.start < widthOf
              ((left ++ (line.indent.toList ++ line.first :: rest)).map Site.stored) := by
            have := Nat.pos_of_ne_zero fun hzero =>
              hholds.first (String.utf8ByteSize_eq_zero_iff.1 hzero)
            rw [hholds.start]
            simp only [List.map_append, List.map_cons, widthOf_append, widthOf_cons]
            omega
          have htotal : widthOf ((left ++ (line.indent.toList ++ line.first :: rest)).map
              Site.stored) ≤ widthOf (tokensAll cs₀) := by
            rw [htokens, widthOf_append]
            omega
          rw [List.filterMap_cons_some hof, splices_cons]
          cases hs : splice? line (given f spans moves line).1 with
          | none =>
              refine ⟨fun s hs => ?_, hpairs⟩
              have := hspans s hs
              omega
          | some s =>
              have hspan := hholds.span hs
              rw [Option.toList_some, List.singleton_append]
              refine ⟨fun t ht => ?_, List.pairwise_cons.2 ⟨fun t ht => ?_, hpairs⟩⟩
              · rcases List.mem_cons.1 ht with rfl | ht
                · omega
                · have := hspans t ht
                  omega
              · have := hspans t ht
                omega

end Run

/-- A document is another one with each line as it becomes, and nothing else has changed. -/
def Redone (f : FormatterSettings) (spans : List Span) (d d' : Document) : Prop :=
  ∃ k cs cs' ys, d.tree = .node k cs ∧ d'.tree = .node k cs' ∧ tokensAll cs' = ys.flatten ∧
    List.Forall₂ (Relaid f spans) (linesOf Site.endsLine d.root.subtokens) ys ∧ Reindented cs cs'

variable {d d' : Document} {f : FormatterSettings} {spans : List Span} {cancel : Cancellation}
  {stamp : Nat}

/-- The splices of a run lie within the text, one behind the other. -/
theorem spread (hreg : d.tree.Regular) (f : FormatterSettings) (spans : List Span) :
    (∀ s ∈ splices f spans [] (Line.all d.root),
      s.span.start ≤ s.span.stop ∧ s.span.stop ≤ d.length) ∧
    (splices f spans [] (Line.all d.root)).Pairwise (fun s t => s.span.stop < t.span.start) := by
  obtain ⟨k, cs, htree, -⟩ := hreg.fresh
  have hroot : d.root = Site.top d.origin (.node k cs) := by rw [Document.root, htree]
  have hsplit : (Site.top d.origin (.node k cs)).subtokens =
      [] ++ (linesOf Site.endsLine d.root.subtokens).flatten := by
    rw [flatten_linesOf, hroot]
    rfl
  have hwidth : d.length = widthOf (tokensAll cs) := by
    rw [Document.length, htree, width_eq.1]
    rfl
  obtain ⟨hspans, hpairs⟩ := splices_apart f spans (htree ▸ hreg) hsplit []
  rw [← Line.all_eq] at hspans hpairs
  exact ⟨fun s hs => ⟨(hspans s hs).2.1, hwidth ▸ (hspans s hs).2.2⟩, hpairs⟩

/-- The splices of a run can be made, and make of each line what it becomes. -/
theorem redone_of_held (hreg : d.tree.Regular)
    (hheld : ∀ t ∈ targets f spans [] (Line.all d.root), Held f t.2) :
    ∃ tree, Patch.spliceAll d.tree (splices f spans [] (Line.all d.root)) = .ok tree ∧
      ∀ d', d'.tree = tree → Redone f spans d d' := by
  obtain ⟨k, cs, htree, -⟩ := hreg.fresh
  have hroot : d.root = Site.top d.origin (.node k cs) := by rw [Document.root, htree]
  have hsplit : (Site.top d.origin (.node k cs)).subtokens =
      [] ++ (linesOf Site.endsLine d.root.subtokens).flatten := by
    rw [flatten_linesOf, hroot]
    rfl
  rw [Line.all_eq] at hheld
  obtain ⟨cs', ys, hall, htokens, hlines, hre⟩ := relays_lines f spans (htree ▸ hreg)
    (lines_linesOf _) hsplit rfl [] hheld
  rw [← Line.all_eq, ← htree] at hall
  exact ⟨_, hall, fun d' htree' => ⟨k, cs, cs', ys, htree, htree', htokens, hlines, hre⟩⟩

/-- **A run changes nothing but white space at the front of lines.** -/
theorem redone_of_apply (hreg : d.tree.Regular) (h : apply f d spans cancel stamp = .ok d') :
    Redone f spans d d' := by
  obtain ⟨p, hp, hdone⟩ := apply_ok h
  obtain ⟨hheld, rfl⟩ := patch_ok hp
  obtain ⟨tree, hall, hredone⟩ := redone_of_held hreg hheld
  refine hredone d' ?_
  rcases hdone with ⟨hnone, rfl⟩ | ⟨-, o, ho, rfl⟩
  · rw [show splices f spans [] (Line.all d'.root) = [] from hnone] at hall
    exact Except.ok.inj hall
  · obtain ⟨hspans, hpairs⟩ := spread hreg f spans
    obtain ⟨sorted, hvalid, hmade, -⟩ := Patch.apply_ok ho
    obtain ⟨rfl, -, -⟩ := (Patch.validate_eq_ok_iff rfl).1 hvalid
    rw [Patch.sort_of_apart (List.Perm.refl _) (fun s hs => (hspans s hs).1) hpairs, hall] at hmade
    exact (Except.ok.inj hmade).symm

/-- A line takes no more of the text than there is. -/
theorem size_indentText_le {l : Line} (hl : l ∈ Line.all d.root) :
    l.indentText.utf8ByteSize ≤ d.length := by
  rw [Line.all_eq] at hl
  obtain ⟨row, hrow, hof⟩ := List.mem_filterMap.1 hl
  obtain ⟨rest, rfl, -⟩ := Line.of?_eq_some hof
  obtain ⟨indent, first⟩ := l
  cases indent with
  | none => exact Nat.zero_le _
  | some w =>
      have hmem : w ∈ d.root.subtokens := by
        rw [← @flatten_linesOf _ Site.endsLine d.root.subtokens]
        exact List.mem_flatten.2 ⟨_, hrow, by simp⟩
      obtain ⟨hsubtree, htoken⟩ := List.mem_filter.1 hmem
      have hstop := (Site.subtree_within.1 d.tree d.origin 0 [] w hsubtree).2
      rw [Site.stop_eq, Site.width_of_isToken htoken] at hstop
      show w.text.utf8ByteSize ≤ d.tree.width
      omega

/-- **Where the new text fits, a run goes through.** -/
theorem exists_apply (hreg : d.tree.Regular) (hcancel : cancel.requested = false)
    (hfits : (⟨d.version, splices f spans [] (Line.all d.root)⟩ : Patch).Fits d) (stamp : Nat) :
    ∃ d', apply f d spans cancel stamp = .ok d' := by
  obtain ⟨hspans, hpairs⟩ := spread hreg f spans
  have hordered : ∀ s ∈ splices f spans [] (Line.all d.root), s.span.Ordered := fun s hs =>
    (hspans s hs).1
  have hwithin : ∀ s ∈ splices f spans [] (Line.all d.root), s.span.stop ≤ d.length := fun s hs =>
    (hspans s hs).2
  have hsort := Patch.sort_of_apart (List.Perm.refl _) hordered hpairs
  have hapart : (splices f spans [] (Line.all d.root)).Pairwise
      (fun s t => s.span.stop ≤ t.span.start) := hpairs.imp Nat.le_of_lt
  have hsizes := hfits.length_le hordered hwithin (by rw [hsort]; exact hapart)
  -- white space is that of a change, or stands in the text already
  have hheld : ∀ t ∈ targets f spans [] (Line.all d.root), Held f t.2 := by
    intro t ht
    have hsize : (render f t.2).utf8ByteSize ≤ Patch.maxOffset := by
      cases hs : splice? t.1 (render f t.2) with
      | none =>
          rw [eq_of_splice?_none hs]
          have hlength := hfits [] ((List.mem_tails _ _).2 (List.nil_suffix))
          have hindent := size_indentText_le (mem_of_mem_targets ht)
          rw [Patch.totalGrowth_nil] at hlength
          omega
      | some s =>
          have hlength := hsizes s (List.mem_filterMap.2 ⟨t, ht, hs⟩)
          rw [Replacement.length, width_eq.2] at hlength
          rw [← text_of_splice? hs]
          exact hlength
    rw [utf8ByteSize_render] at hsize
    exact Nat.le_trans hsize (by decide)
  obtain ⟨tree, hall, -⟩ := redone_of_held hreg hheld
  have happly := Patch.apply_of_apart (List.Perm.refl _) hordered hwithin hpairs hall
    (Patch.reachable_of_fits hordered hwithin ?_ ?_) stamp
  · have hsettled := settle_eq_ok happly hsizes
    unfold apply
    rw [patch_eq_ok hcancel hheld]
    cases hempty : (⟨d.version, splices f spans [] (Line.all d.root)⟩ : Patch).isEmpty with
    | true => exact ⟨d, by simp [hempty, bind, Except.bind]; rfl⟩
    | false => exact ⟨_, by simp [hempty, hsettled, bind, Except.bind]; rfl⟩
  · refine hpairs.imp_of_mem fun {s t} hs ht hst => (Patch.clash_eq_false_iff _ _).2 ?_
    have := hspans s hs
    omega
  · rw [← hsort]
    exact (Patch.totalGrowth_perm (Patch.sort_perm _)).symm ▸ hfits.total

/-! ## What is left of the lines -/

/-- A line that becomes another one ends as it did, and before that it has old tokens or white
space. -/
theorem Relaid.ends {l : List Site} {y : Stored} (h : Relaid f spans l y) (hne : l ≠ []) :
    ∃ init last front, l = init ++ [last] ∧ y = front ++ [last.stored] ∧
      ∀ x ∈ front, x ∈ init.map Site.stored ∨ x.1 = .whitespace ∧ x.2 ≠ "" := by
  cases h with
  | keep =>
      obtain ⟨init, last, rfl⟩ := (List.eq_nil_or_concat l).resolve_left hne
      exact ⟨init, last, init.map Site.stored, List.concat_eq_append, by simp, fun x hx => Or.inl hx⟩
  | @set line rest moves _ =>
      obtain ⟨init, last, hlast⟩ := (List.eq_nil_or_concat (line.first :: rest)).resolve_left
        (List.cons_ne_nil _ _)
      rw [List.concat_eq_append] at hlast
      refine ⟨line.indent.toList ++ init, last,
        tokensAll (spaceOf (given f spans moves line).1) ++ init.map Site.stored, ?_, ?_,
        fun x hx => ?_⟩
      · rw [hlast, List.append_assoc]
      · rw [hlast]
        simp
      · rcases List.mem_append.1 hx with hx | hx
        · exact Or.inr (mem_spaceOf _ x hx)
        · exact Or.inl (by rw [List.map_append]; exact List.mem_append_right _ hx)

/-- What a line keeps in front and the white space put there end no line. -/
theorem not_endsLine_of_front {init : List Site} {front : Stored}
    (hfront : ∀ x ∈ front, x ∈ init.map Site.stored ∨ x.1 = .whitespace ∧ x.2 ≠ "")
    (hinit : ∀ t ∈ init, t.endsLine = false) : ∀ x ∈ front, endsLine x = false := by
  intro x hx
  rcases hfront x hx with hx | ⟨hkind, -⟩
  · obtain ⟨t, ht, rfl⟩ := List.mem_map.1 hx
    exact hinit t ht
  · rw [endsLine, hkind]
    rfl

/-- What lines become are lines again. -/
theorem lines_of_relaid {ls : List (List Site)} {ys : List Stored} (hls : Lines Site.endsLine ls)
    (h : List.Forall₂ (Relaid f spans) ls ys) : Lines endsLine ys := by
  induction hls generalizing ys with
  | nil =>
      cases h
      exact .nil
  | @last l ne inner =>
      obtain ⟨y, hy, rfl⟩ : ∃ y, Relaid f spans l y ∧ ys = [y] := by
        cases h with
        | cons hy hrest =>
            cases hrest
            exact ⟨_, hy, rfl⟩
      obtain ⟨init, last, front, rfl, rfl, hfront⟩ := hy.ends ne
      refine .last (List.append_ne_nil_of_right_ne_nil _ (List.cons_ne_nil _ _)) fun x hx => ?_
      rcases List.mem_append.1 hx with hx | hx
      · exact not_endsLine_of_front hfront (fun t ht => inner t (List.mem_append_left _ ht)) x hx
      · obtain rfl := List.mem_singleton.1 hx
        exact inner last (by simp)
  | @cons inner a ls hinner hstop rest ih =>
      cases h with
      | cons hy hrest =>
          obtain ⟨init, last, front, hl, rfl, hfront⟩ := hy.ends
            (List.append_ne_nil_of_right_ne_nil _ (List.cons_ne_nil _ _))
          obtain ⟨rfl, hlast⟩ := List.append_inj' hl rfl
          obtain rfl : a = last := by simpa using hlast
          exact .cons (not_endsLine_of_front hfront hinner) hstop (ih hrest)

/-- Lines with the offsets at which they start. -/
def placed : Nat → List Stored → List (Nat × Stored)
  | _, [] => []
  | here, l :: ls => (here, l) :: placed (here + widthOf l) ls

/-- A line to be left as it is: its first token behind the white space starts in no span, or there is
none, or it is a directive. -/
def IsLeft (spans : List Span) (line : Nat × Stored) : Prop :=
  spans.any (·.contains (line.1 + widthOf (indentOf line.2))) = false ∨
    ∀ x ∈ (bodyOf line.2).head?, x.1 = .newline ∨ x.1 = .endOfFile ∨ x.1.isDirective = true

/-- A line and what it may become: what stands behind its white space stays, and its white space too
if it is to be left. -/
def Indented (spans : List Span) (old : Nat × Stored) (new : Stored) : Prop :=
  bodyOf new = bodyOf old.2 ∧ (IsLeft spans old → indentOf new = indentOf old.2)

/-- A line that is laid out anew keeps what stands behind its white space, and its white space
too where it is to be left. -/
theorem Relaid.indented {k : Kind} {cs₀ : List Tree} {origin : Nat}
    (hreg : (Tree.node k cs₀).Regular) {left l right : List Site} {y : Stored}
    (hsplit : (Site.top origin (.node k cs₀)).subtokens = left ++ l ++ right)
    (htrim : Trim (l.map Site.stored)) (h : Relaid f spans l y) :
    Indented spans (widthOf (left.map Site.stored), l.map Site.stored) y := by
  cases h with
  | keep => exact ⟨rfl, fun _ => rfl⟩
  | @set line rest moves hof =>
      obtain ⟨-, -, hindent, hpassed, -⟩ := Line.of?_eq_some hof
      have htokens : tokensAll cs₀ =
          (left ++ (line.indent.toList ++ line.first :: rest)).map Site.stored ++
            right.map Site.stored := by
        rw [← List.map_append, ← hsplit]
        exact (Site.map_stored_subtokens (Site.top origin (.node k cs₀))).symm
      have hholds := holds_of_split hreg hsplit hindent hpassed htokens
      have hfirst : line.first.stored.1 ≠ .whitespace := Line.first_ne_whitespace hof htrim
      obtain ⟨hindentOf, back, hbodyOf⟩ := Line.split_of_of? hof htrim
      have hnew := indentOf_append
        (fun y hy => (mem_spaceOf (given f spans moves line).1 y hy).1) hfirst (rest.map Site.stored)
      have hback : rest.map Site.stored = back := by
        have hsame := indentOf_append_bodyOf
          ((line.indent.toList ++ line.first :: rest).map Site.stored)
        rw [hindentOf, hbodyOf, List.map_append] at hsame
        exact (List.cons.inj (List.append_cancel_left hsame)).2.symm
      rw [Indented, List.map_cons, hnew.1, hnew.2, hindentOf, hbodyOf, hback]
      refine ⟨rfl, fun hleft => ?_⟩
      rcases hleft with houtside | hpass
      · rw [hindentOf, ← hholds.start] at houtside
        have hgiven : (given f spans moves line).1 = line.indentText := by
          rw [given, wanted, inSpans, houtside, if_neg Bool.false_ne_true]
        rw [hgiven, hholds.spaceOf_indentText]
      · rw [hbodyOf] at hpass
        have hkind : Line.isPassed line.first.kind = true := by
          rcases hpass line.first.stored rfl with hkind | hkind | hkind
          · rw [Line.isPassed, show line.first.kind = .newline from hkind]
            rfl
          · rw [Line.isPassed, show line.first.kind = .endOfFile from hkind]
            rfl
          · rw [Line.isPassed, show line.first.kind.isDirective = true from hkind]
            simp
        rw [hkind] at hpassed
        cases hpassed

/-- All lines of a run are laid out so, each at the offset where it starts, by induction on the
lines. -/
theorem indented_lines {k : Kind} {cs₀ : List Tree} {origin : Nat}
    (hreg : (Tree.node k cs₀).Regular) (hspaced : Spaced (tokensAll cs₀)) {left : List Site}
    {ls : List (List Site)} {ys : List Stored}
    (hsplit : (Site.top origin (.node k cs₀)).subtokens = left ++ ls.flatten)
    (h : List.Forall₂ (Relaid f spans) ls ys) :
    List.Forall₂ (Indented spans)
      (placed (widthOf (left.map Site.stored)) (ls.map (List.map Site.stored))) ys := by
  induction h generalizing left with
  | nil => exact .nil
  | @cons l y ls ys hy _ ih =>
      have hsplit : (Site.top origin (.node k cs₀)).subtokens = left ++ l ++ ls.flatten := by
        simpa using hsplit
      have htokens : tokensAll cs₀ =
          left.map Site.stored ++ l.map Site.stored ++ ls.flatten.map Site.stored := by
        rw [← List.map_append, ← List.map_append, ← hsplit]
        exact (Site.map_stored_subtokens (Site.top origin (.node k cs₀))).symm
      have hline : Spaced (l.map Site.stored) :=
        hspaced.infix ⟨left.map Site.stored, ls.flatten.map Site.stored, htokens.symm⟩
      refine .cons (hy.indented hreg hsplit hline.trim) ?_
      have hrest := ih hsplit
      rwa [List.map_append, widthOf_append] at hrest

end Indent

namespace Document

/-- Documents have regular trees, in which white space does not follow white space. -/
theorem tree_regular (version : Nat) (text : String) :
    (ofText version text).tree.Regular ∧ Spaced (ofText version text).tree.tokens := by
  refine ⟨parse_regular text, ?_⟩
  rw [show (ofText version text).tree.tokens = _ from parse_tokens text]
  exact lex_spaced text

/-- **The formatter changes indentation only.**  Whatever the text, the spans and the settings, without
the white space at the front of lines the tree is the one it was.  Line by line, what stands behind that
white space is the same, and the white space too if the first token behind it starts in no span, is a
directive or is missing.  A run goes through if its result fits. -/
theorem indents_only_lines (version stamp : Nat) (text : String) (f : FormatterSettings)
    (spans : List Span) (cancel : Cancellation) (hcancel : cancel.requested = false) :
    let document := ofText version text
    ((⟨version, Indent.splices f spans [] (Line.all document.root)⟩ : Patch).Fits document →
      ∃ document', Indent.apply f document spans cancel stamp = .ok document') ∧
    ∀ document', Indent.apply f document spans cancel stamp = .ok document' →
      document'.tree.dedented = document.tree.dedented ∧
      List.Forall₂ (Indent.Indented spans)
        (Indent.placed 0 (linesOf endsLine document.tree.tokens))
        (linesOf endsLine document'.tree.tokens) := by
  intro document
  obtain ⟨hreg, hspaced⟩ := tree_regular version text
  refine ⟨fun hfits => Indent.exists_apply hreg hcancel hfits stamp, fun document' happly => ?_⟩
  obtain ⟨k, cs, cs', ys, htree, htree', htokens, hlines, hre⟩ :=
    Indent.redone_of_apply hreg happly
  have hroot : document.root = Site.top document.origin (.node k cs) := by
    rw [root, show document.tree = _ from htree]
  have hstored : document.tree.tokens = document.root.subtokens.map Site.stored :=
    (Site.map_stored_subtokens document.root).symm
  have hcut : linesOf endsLine document.tree.tokens =
      (linesOf Site.endsLine document.root.subtokens).map (List.map Site.stored) := by
    have hends : ∀ s : Site, endsLine s.stored = s.endsLine := fun _ => rfl
    rw [hstored, linesOf_map hends]
  have hcut' : linesOf endsLine document'.tree.tokens = ys := by
    rw [htree', show (Tree.node k cs').tokens = ys.flatten from htokens,
      linesOf_flatten (Indent.lines_of_relaid (lines_linesOf _) hlines)]
  refine ⟨?_, ?_⟩
  · rw [htree', show document.tree = _ from htree, dedented, dedented, dedent, dedent, hre.dedented]
  · rw [hcut, hcut']
    rw [htree] at hreg hspaced
    have hsplit : (Site.top document.origin (.node k cs)).subtokens =
        [] ++ (linesOf Site.endsLine document.root.subtokens).flatten := by
      rw [flatten_linesOf, List.nil_append, ← hroot]
    exact Indent.indented_lines hreg hspaced hsplit hlines

/-- Of two members that stand too far left, one starts in the span; the line between them has a
directive. -/
theorem indents_only_lines_class :
    let text := "class C\n\x7b\nint a;\n  #region r\nint b;\n\x7d\n"
    let document := ofText 1 text
    ((Indent.apply .standard document [⟨10, 20⟩] {} 2).toOption.map Document.text) =
        some "class C\n\x7b\n    int a;\n  #region r\nint b;\n\x7d\n" ∧
      ∃ document', Indent.apply .standard document [⟨10, 20⟩] {} 2 = .ok document' ∧
        document'.tree.dedented = document.tree.dedented ∧
        List.Forall₂ (Indent.Indented [⟨10, 20⟩])
          (Indent.placed 0 (linesOf endsLine document.tree.tokens))
          (linesOf endsLine document'.tree.tokens) := by
  intro text document
  obtain ⟨hsucceeds, hkept⟩ := indents_only_lines 1 2 text .standard [⟨10, 20⟩] {} rfl
  obtain ⟨document', happly⟩ := hsucceeds (by unfold Patch.Fits; decide +kernel)
  exact ⟨by decide +kernel, document', happly, hkept document' happly⟩

/-- With the greatest level there is, one tab for each level would do, but the columns of two levels
wrap around to more spaces than memory holds. -/
theorem overflow_of_greatest_level :
    let document := ofText 1 "namespace N\n\x7b\nclass C\n\x7b\nint a;\n\x7d\n\x7d\n"
    ¬ ∃ document', Indent.apply ⟨some .tabs, some 18446744073709551615⟩ document
      [⟨0, document.length⟩] {} 2 = .ok document' := by
  intro document
  have hfails : (Indent.apply ⟨some .tabs, some 18446744073709551615⟩ document
      [⟨0, document.length⟩] {} 2).toOption.isNone = true := by decide +kernel
  rintro ⟨document', happly⟩
  rw [happly] at hfails
  cases hfails

end Document

end CodeMend
