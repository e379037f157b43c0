import CodeMend.Proofs.Edit.Orphans
import CodeMend.Proofs.Lexer.Seams
import CodeMend.Proofs.Parser.Endings
import CodeMend.Proofs.Trivia.Gaps

/-!
# Statements next to an anchor

Statements come from texts of their own, and the separators and the indentation between them are made
as tokens, so nothing in the tree says that its text reads back.  A statement ends with a semicolon or
a closing brace and starts with a token that is not trivia, so it reads back wherever it stands,
whatever follows (`Sealed`).  What is left are two places where a token may meet what it did not meet
before: the separator, and the statement that is put right behind the token before the anchor.
-/

namespace CodeMend

open Tree Lexer

/-! ## Rows of statements -/

namespace Lexer

/-- Tokens that read back wherever they stand, whatever follows them. -/
structure Sealed (xs : Stored) : Prop where
  dark : Dark xs
  lexes : ∀ lineStart rest, Lexes false rest → Lexes lineStart (xs ++ rest)

/-- What follows a row that does not start with a blank does not matter to how it starts. -/
theorem Dark.append {xs : Stored} (h : Dark xs) (rest : Stored) : Dark (xs ++ rest) := by
  obtain ⟨c, cs, hchars, hc⟩ := h
  exact ⟨c, cs ++ charsOf rest, by rw [charsOf_append, hchars]; rfl, hc⟩

/-- Tokens that read back before what is not blank, wherever they stand. -/
def Divides (gap : Stored) : Prop :=
  ∀ lineStart rest, Dark rest → (∀ ls, Lexes ls rest) → Lexes lineStart (gap ++ rest)

variable {gap lead rest : Stored} {statements : List Tree}

/-- Statements with a gap behind each. -/
theorem lexes_gapped (hgap : Divides gap) (hdark : Dark rest) (hrest : ∀ ls, Lexes ls rest)
    (h : ∀ t ∈ statements, Sealed t.tokens) :
    Dark (statements.flatMap (fun t => t.tokens ++ gap) ++ rest) ∧
      ∀ ls, Lexes ls (statements.flatMap (fun t => t.tokens ++ gap) ++ rest) := by
  induction statements with
  | nil => exact ⟨hdark, hrest⟩
  | cons t statements ih =>
      obtain ⟨ht, hstatements⟩ := List.forall_mem_cons.1 h
      obtain ⟨htail, hlexes⟩ := ih hstatements
      rw [List.flatMap_cons, List.append_assoc, List.append_assoc]
      exact ⟨ht.dark.append _, fun ls => ht.lexes ls _ (hgap _ _ htail hlexes)⟩

/-- Statements with a gap before each. -/
theorem lexes_behind_gaps (hgap : Divides gap) (hrest : Lexes false rest)
    (h : ∀ t ∈ statements, Sealed t.tokens) :
    Lexes false (statements.flatMap (fun t => gap ++ t.tokens) ++ rest) := by
  induction statements with
  | nil => exact hrest
  | cons t statements ih =>
      obtain ⟨ht, hstatements⟩ := List.forall_mem_cons.1 h
      rw [List.flatMap_cons, List.append_assoc, List.append_assoc]
      exact hgap _ _ (ht.dark.append _) fun ls => ht.lexes ls _ (ih hstatements)

/-- Statements on lines of their own. -/
theorem lexes_lines (hlead : Divides lead) {newline : Kind × String}
    (hnewline : ∀ ls xs, Lexes true xs → Lexes ls (newline :: xs)) (hrest : Lexes true rest)
    (h : ∀ t ∈ statements, Sealed t.tokens) :
    Lexes true (statements.flatMap (fun t => lead ++ (t.tokens ++ [newline])) ++ rest) := by
  induction statements with
  | nil => exact hrest
  | cons t statements ih =>
      obtain ⟨ht, hstatements⟩ := List.forall_mem_cons.1 h
      simp only [List.flatMap_cons, List.append_assoc, List.singleton_append]
      exact hlead _ _ (ht.dark.append _) fun ls => ht.lexes ls _ (hnewline _ _ (ih hstatements))

/-- Behind a semicolon or a closing brace no directive can start. -/
theorem lineStartAfter_of_closed {xs : Stored} (h : EndsClosed xs) (lineStart : Bool) :
    lineStartAfter lineStart xs = false := by
  obtain ⟨front, k, text, rfl, hk⟩ := h
  rw [lineStartAfter, List.foldl_append]
  exact nextLineStart_of_significant (by rcases hk with rfl | rfl <;> rfl) _

/-- A row that starts with a significant token and ends with a semicolon or a closing brace. -/
theorem Lexes.sealed {lineStart : Bool} {k : Kind} {text : String} {xs : Stored}
    (h : Lexes lineStart ((k, text) :: (xs ++ rest))) (hk : k.isTrivia = false)
    (hends : EndsClosed ((k, text) :: xs)) : Sealed ((k, text) :: xs) := by
  have hclosed (rest' : Stored) (hrest : Lexes false rest') :
      Lexes lineStart ((k, text) :: (xs ++ rest')) :=
    @Lexes.closed _ _ _ ((k, text) :: xs) h hends hrest
  exact ⟨List.append_nil xs ▸ (hclosed [] (.nil _)).dark hk,
    fun ls rest hrest => (hclosed rest hrest).anywhere hk ls⟩

end Lexer

open Site

/-- Are the tokens cut out of their text again, without a complaint? -/
def ReadsBack (xs : Stored) : Prop :=
  (lex (textOf xs)).1.map Token.stored = xs ∧ (lex (textOf xs)).2 = []

/-- With the end of the file behind them, tokens read back exactly if the lexer cuts them one by
one. -/
theorem readsBack_iff {xs : Stored} : ReadsBack (xs ++ [(.endOfFile, "")]) ↔ Lexes true xs := by
  have htext : textOf (xs ++ [(.endOfFile, "")]) = textOf xs := by
    rw [textOf_append]
    exact String.append_empty
  rw [ReadsBack, htext]
  constructor
  · rintro ⟨hstored, herr⟩
    obtain ⟨ys, hlexes, -, hys⟩ := lexes_of_lex herr
    obtain rfl := List.append_cancel_right (hys.symm.trans hstored)
    exact hlexes
  · exact lex_of_lexes

/-! ## The anchor and the tokens around it -/

/-- A statement that starts and ends with the two tokens, in a document whose other tokens are those
to its left and to its right. -/
structure Anchored (d : Document) (anchor first last : Site) (cs : List Tree)
    (left right : List Site) : Prop where
  clean : Clean d.root
  framed : Framed anchor first last
  tree : d.tree = .node .compilationUnit (cs ++ [.token .endOfFile ""])
  row : ∃ stop, stop.isTrivia = false ∧
    d.root.subtokens = left ++ (anchor.leaves ++ (right ++ [stop]))
  stored : anchor.tree.tokens = anchor.leaves.map Site.stored
  tokens : tokensAll cs = left.map Site.stored ++ (anchor.tree.tokens ++ right.map Site.stored)
  isToken : ∀ x ∈ left ++ (anchor.leaves ++ right), x.isToken = true
  solid : ∀ x ∈ tokensAll cs, x.2 ≠ ""
  lexes : Lexes true (tokensAll cs)
  ends : EndsClosed anchor.tree.tokens
  sealed : Sealed anchor.tree.tokens

/-- In a document without errors every statement ends with a semicolon or a closing brace. -/
theorem Document.statement_ends {version : Nat} {text : String}
    (herr : (Document.ofText version text).errors = []) {s : Site}
    (hs : s ∈ (Document.ofText version text).root.subnodes) (hkind : s.kind.isStatement = true) :
    EndsClosed s.tree.tokens := by
  obtain ⟨hsubtree, hnode⟩ := List.mem_filter.1 hs
  have hterminated := everyNode_of_mem.1 _ _ _ _ (parse_terminated herr) s hsubtree
  cases htree : s.tree with
  | token k spelling => simp [Site.isNode, htree, Tree.isNode, Tree.isToken] at hnode
  | node k cs =>
      rw [htree] at hterminated
      exact hterminated.1 (by simpa [Site.kind, htree, Tree.kind] using hkind)

/-- Every statement of a document without errors is an anchor: it has a first and a last word,
and the tokens of the text stand on both sides of it. -/
theorem Document.exists_anchored {version : Nat} {text : String}
    (herr : (Document.ofText version text).errors = []) {anchor : Site}
    (hmem : anchor ∈ (Document.ofText version text).root.subnodes)
    (hkind : anchor.kind.isStatement = true) :
    ∃ first last cs left right,
      Anchored (.ofText version text) anchor first last cs left right := by
  have hroot := Document.clean_root herr
  obtain ⟨hsubtree, -⟩ := List.mem_filter.1 hmem
  obtain ⟨first, last, hframed⟩ := hroot.framed anchor hmem (by
    rintro rfl
    obtain ⟨cs, htree, -⟩ := parse_tree_solid text
    have hunit : (Document.ofText version text).root.kind = .compilationUnit := congrArg Tree.kind htree
    rw [hunit] at hkind
    cases hkind)
  have hstored := hroot.tokens_eq_leaves hsubtree
  have hends : EndsClosed anchor.tree.tokens := Document.statement_ends herr hmem hkind
  obtain ⟨others, hlast⟩ := hframed.ends
  have hlastKind : last.kind ≠ .endOfFile := by
    obtain ⟨front, k, spelling, htokens, hk⟩ := hends
    rw [hstored, hlast, List.map_append] at htokens
    obtain ⟨-, hlast⟩ := List.append_inj' htokens rfl
    have hkind : last.kind = k := congrArg Prod.fst (List.cons.inj hlast).1
    rw [hkind]
    rcases hk with rfl | rfl <;> decide
  obtain ⟨cs, left, right, stop, hstop, htree, hsplit, htokens, hall⟩ :=
    Document.exists_around herr hsubtree hlast hlastKind
  have hlexes : Lexes true (tokensAll cs) := lexes_of_parse herr (by
    rw [show (parse text).1 = _ from htree, Tree.tokens, tokensAll_append]
    rfl)
  rw [List.map_append, List.map_append, ← hstored] at htokens
  refine ⟨first, last, cs, left, right, hroot, hframed, htree, ⟨stop, ?_, hsplit⟩, hstored, htokens,
    fun x hx => (hall x hx).1, fun x hx => ?_, hlexes, hends, ?_⟩
  · have hmem : stop ∈ (Document.ofText version text).root.subtokens := by simp [hsplit]
    rw [← isTrivia_stored (List.mem_filter.1 hmem).2, hstop]
    rfl
  · rw [htokens, hstored, ← List.map_append, ← List.map_append] at hx
    obtain ⟨y, hy, rfl⟩ := List.mem_map.1 hx
    exact (hall y hy).2
  · obtain ⟨others, hfirst⟩ := hframed.heads
    have hsignificant : first.stored.1.isTrivia = false := by
      rw [isTrivia_stored (hall first (by simp [hfirst])).1]
      exact isTrivia_of_isSignificant hframed.significant.1
    rw [htokens] at hlexes
    rw [hstored, hfirst, List.map_cons] at hlexes hends ⊢
    exact hlexes.of_append.sealed hsignificant hends

/-- What is taken from a snippet is a node of a document without errors. -/
theorem Snippet.lift_eq_some {opening snippet closing : String} {wanted : Site → Bool} {t : Tree}
    (h : Snippet.lift opening snippet closing wanted = some t) :
    (Document.ofText 0 (opening ++ snippet ++ closing)).errors = [] ∧
      ∃ node ∈ (Document.ofText 0 (opening ++ snippet ++ closing)).root.subnodes,
        wanted node = true ∧ node.tree = t := by
  unfold Snippet.lift at h
  obtain ⟨_, herr, h⟩ := Option.bind_eq_some_iff.1 h
  obtain ⟨node, hfind, h⟩ := Option.bind_eq_some_iff.1 h
  obtain ⟨_, _, h⟩ := Option.bind_eq_some_iff.1 h
  exact ⟨List.isEmpty_iff.1 ((Option.guard_eq_some' _).1 herr), node,
    List.mem_of_find?_eq_some hfind, List.find?_some hfind, Option.some.inj h⟩

/-- A statement from a text of its own. -/
theorem Snippet.statement_sealed {text : String} {t : Tree} (h : Snippet.statement text = some t) :
    Sealed t.tokens ∧ EndsClosed t.tokens := by
  unfold Snippet.statement at h
  obtain ⟨herr, node, hnode, hwanted, rfl⟩ := Snippet.lift_eq_some h
  obtain ⟨_, _, _, _, _, hanchored⟩ :=
    Document.exists_anchored herr hnode (Bool.and_eq_true_iff.1 hwanted).1
  exact ⟨hanchored.sealed, hanchored.ends⟩

/-! ## Separators -/

/-- The tokens of pieces in a row. -/
def spread (pieces : List (Tree × Bool)) : Stored := tokensAll (pieces.map Prod.fst)

/-- No pieces have no tokens. -/
theorem spread_nil : spread [] = [] := rfl

/-- The tokens of two rows of pieces. -/
theorem spread_append (pieces more : List (Tree × Bool)) :
    spread (pieces ++ more) = spread pieces ++ spread more := by
  rw [spread, List.map_append, tokensAll_append]
  rfl

/-- The tokens of the first piece, and those of the others. -/
theorem spread_cons (piece : Tree × Bool) (pieces : List (Tree × Bool)) :
    spread (piece :: pieces) = piece.1.tokens ++ spread pieces := rfl

/-- The tokens of rows of pieces made from a list. -/
theorem spread_flatMap {α : Type} (as : List α) (f : α → List (Tree × Bool)) :
    spread (as.flatMap f) = as.flatMap fun a => spread (f a) := by
  induction as with
  | nil => rfl
  | cons a as ih => rw [List.flatMap_cons, spread_append, ih, List.flatMap_cons]

/-- The indentation is one token of white space, or none if it is empty. -/
theorem spread_indentation (indent : String) : spread (Editor.indentation indent) =
    if indent.isEmpty then [] else [(.whitespace, indent)] := by
  unfold Editor.indentation
  split <;> rfl

/-- A separator is one token, named by whether it has a line feed. -/
theorem tokens_separator {text : String} : (Editor.separator text).tokens =
    [(if text.toList.contains '\n' then .newline else .whitespace, text)] := by
  unfold Editor.separator
  split <;> rfl

/-- Is the text white space within a line? -/
def IsIndent (text : String) : Prop := ∀ c ∈ text.toList, (Text.isBlank c && !isLineBreak c) = true

/-- A blank is white space within a line. -/
theorem isIndent_blank : IsIndent " " := List.forall_mem_singleton.2 rfl

/-- White space within a line reads back before what is not blank. -/
theorem divides_whitespace {text : String} (h : IsIndent text) (hne : text.toList ≠ []) :
    Divides [(.whitespace, text)] := fun _ _ hdark hlexes => .whitespace hne h hdark (hlexes _)

/-- An indentation reads back, the empty one as well. -/
theorem divides_indentation {indent : String} (h : IsIndent indent) :
    Divides (spread (Editor.indentation indent)) := by
  rw [spread_indentation]
  split
  · exact fun _ _ _ hlexes => hlexes _
  · next hne => exact divides_whitespace h (by simpa using hne)

/-- A line break with a line feed reads back before what may start a line. -/
theorem lexes_newline {text : String} (hbreak : IsBreak text) (h : '\n' ∈ text.toList)
    (lineStart : Bool) (xs : Stored) (hxs : Lexes true xs) :
    Lexes lineStart ((.newline, text) :: xs) :=
  .newline hbreak (fun hreturn => absurd (hreturn ▸ h) (by decide)) hxs

/-- Lines of statements do not start with a line break. -/
theorem head_of_lines {indent : String} {newline : Kind × String} {rest : Stored}
    {statements : List Tree}
    (hlexes : Lexes true (statements.flatMap (fun t =>
      spread (Editor.indentation indent) ++ (t.tokens ++ [newline])) ++ rest))
    (hne : statements ≠ []) (h : ∀ t ∈ statements, Sealed t.tokens) :
    (charsOf (statements.flatMap (fun t =>
      spread (Editor.indentation indent) ++ (t.tokens ++ [newline])) ++ rest)).head? ≠ some '\n' := by
  obtain ⟨t, ts, rfl⟩ := List.exists_cons_of_ne_nil hne
  rw [spread_indentation] at hlexes ⊢
  split at hlexes
  · next hempty =>
    rw [if_pos hempty, List.flatMap_cons, List.nil_append, List.append_assoc, List.append_assoc]
    have hdark := (h t List.mem_cons_self).dark.append
    intro hhead
    exact absurd ((hdark _).head _ hhead) (by decide)
  · next hempty =>
    rw [if_neg hempty]
    exact hlexes.head?_ne (by simp) rfl

namespace Anchored

variable {d : Document} {anchor first last : Site} {cs : List Tree} {left right : List Site}

/-- The first token of the anchor stands behind those to its left. -/
theorem row_first (h : Anchored d anchor first last cs left right) :
    ∃ behind, d.root.subtokens = left ++ first :: behind := by
  obtain ⟨stop, -, hrow⟩ := h.row
  obtain ⟨others, hfirst⟩ := h.framed.heads
  exact ⟨others ++ (right ++ [stop]), by rw [hrow, hfirst]; rfl⟩

/-- Going back from the first token of the anchor meets those to its left. -/
theorem tokensBefore (h : Anchored d anchor first last cs left right) :
    first.tokensBefore = left.reverse := by
  obtain ⟨behind, hrow⟩ := h.row_first
  exact h.clean.chain.before left first behind hrow

/-- What stands to the left of the anchor is among the tokens of the file. -/
theorem stored_mem (h : Anchored d anchor first last cs left right) {x : Site} (hx : x ∈ left) :
    x.stored ∈ tokensAll cs := by
  rw [h.tokens]
  exact List.mem_append_left _ (List.mem_map_of_mem hx)

/-- The indentation is white space within a line. -/
theorem isIndent (h : Anchored d anchor first last cs left right) {indent : String}
    (hindent : first.lineIndent? = some indent) : IsIndent indent := by
  have hempty : IsIndent "" := fun c hc => by simp at hc
  have hspace (p : Site) (hp : p ∈ left) (hkind : (p.kind == .whitespace) = true) :
      IsIndent p.text := (h.lexes.blanks (h.stored_mem hp) (beq_iff_eq.1 hkind)).2
  unfold lineIndent? at hindent
  rw [h.tokensBefore] at hindent
  split at hindent
  · exact Option.some.inj hindent ▸ hempty
  · next p before hbefore =>
    have hp : p ∈ left := List.mem_reverse.1 (by rw [hbefore]; exact List.mem_cons_self)
    split at hindent
    · exact Option.some.inj hindent ▸ hempty
    · split at hindent
      · next hkind =>
        split at hindent
        · exact Option.some.inj hindent ▸ hspace p hp hkind
        · split at hindent
          · exact Option.some.inj hindent ▸ hspace p hp hkind
          · cases hindent
      · cases hindent

/-- The line break of a document is one of the text, or a line feed where there is none. -/
theorem isBreak_lineBreak (h : Anchored d anchor first last cs left right) :
    IsBreak (Editor.lineBreak ⟨d, []⟩) := by
  unfold Editor.lineBreak
  cases hfind : d.root.subtokens.find? (·.kind == .newline) with
  | none => exact .inl rfl
  | some x =>
      have hkind : x.kind = .newline :=
        beq_iff_eq.1 (List.find?_some (p := fun t : Site => t.kind == .newline) hfind)
      have hmem : x.stored ∈ d.tree.tokens := by
        rw [show d.tree.tokens = _ from h.clean.tokens_eq]
        exact List.mem_map_of_mem (List.mem_of_find?_eq_some hfind)
      rw [h.tree, Tree.tokens, tokensAll_append, show x.stored = (.newline, x.text) from
        congrArg (·, x.text) hkind] at hmem
      obtain ⟨front, back, hsplit⟩ := List.append_of_mem
        ((List.mem_append.1 hmem).resolve_right (by simp [tokensAll, Tree.tokens]))
      have hlexes := h.lexes
      rw [hsplit] at hlexes
      exact hlexes.of_append.isBreak

end Anchored

namespace Editor

/-- The separator and the indentation next to an anchor that starts with the token. -/
def gapAt (e : Editor) (first : Site) : String × String :=
  match first.lineIndent? with
  | some indent => (e.lineBreak, indent)
  | none => (" ", "")

/-- The separator and the indentation as pieces. -/
def gapPieces (e : Editor) (first : Site) : List (Tree × Bool) :=
  (separator (e.gapAt first).1, false) :: indentation (e.gapAt first).2

/-- The splice that puts statements next to an anchor. -/
inductive Placed (e : Editor) (anchor first last : Site) (statements : List Tree) :
    InsertPosition → Splice → Prop
  | before : Placed e anchor first last statements .before
      (.insert anchor.start (.ofPieces (statements.flatMap fun t => (t, true) :: e.gapPieces first)))
  /-- Lines of their own behind that of the anchor. -/
  | lines (hline : first.lineIndent?.isSome = true)
      (hbreak : (last.trailingTrivia.getLast?).any (·.kind == .newline) = true) :
      Placed e anchor first last statements .after
        (.insert last.trailingSpan.stop (.ofPieces (statements.flatMap fun t =>
          indentation (e.gapAt first).2 ++ [(t, true), (separator (e.gapAt first).1, false)])))
  | behind (annotations : List Annotation) : Placed e anchor first last statements .after
      ⟨anchor.span, some anchor.kind, ⟨anchor.tree ::
        (statements.flatMap fun t => e.gapPieces first ++ [(t, true)]).map Prod.fst, annotations⟩⟩

/-- A successful insertion adds one splice, and there are three places for it. -/
theorem insertStatements_ok {e e' : Editor} {anchor first last : Site} {statements : List Tree}
    {position : InsertPosition} (h : e.insertStatements anchor statements position = .ok e')
    (hne : statements ≠ []) (hframed : Framed anchor first last) :
    ∃ s, e' = e.push s ∧ Placed e anchor first last statements position s := by
  have hempty : statements.isEmpty = false := by simpa using hne
  obtain ⟨-, -, h⟩ := bind_eq_ok h
  simp only [hempty, Bool.false_eq_true, if_false, hframed.firstSignificant,
    hframed.lastSignificant] at h
  cases position with
  | before => exact ⟨_, (Except.ok.inj h).symm, .before⟩
  | after =>
      by_cases hline : ((e.gapAt first).1 != " " &&
          (last.trailingTrivia.getLast?).any (·.kind == .newline)) = true
      · obtain ⟨hbetween, hbreak⟩ := Bool.and_eq_true_iff.1 hline
        refine ⟨_, (Except.ok.inj ((if_pos hline).symm.trans h)).symm, .lines ?_ hbreak⟩
        cases hindent : first.lineIndent? with
        | none => simp [gapAt, hindent] at hbetween
        | some indent => rfl
      · exact ⟨_, insertAfter_ok ((if_neg hline).symm.trans h), .behind _⟩

end Editor

namespace Anchored

variable {d : Document} {anchor first last : Site} {cs : List Tree} {left right : List Site}
variable {stamp : Nat} {o : Outcome}

/-- The anchor starts where the text to its left ends. -/
theorem widthOf_left (h : Anchored d anchor first last cs left right) :
    anchor.span.start = widthOf (left.map Site.stored) ∧
      anchor.span.stop = widthOf (left.map Site.stored) + widthOf anchor.tree.tokens := by
  have hstart : anchor.start = widthOf (left.map Site.stored) := by
    obtain ⟨behind, hrow⟩ := h.row_first
    rw [show anchor.start = first.start from congrArg Span.start h.framed.span_eq,
      h.clean.chain.start left first behind hrow,
      widthOf_stored fun x hx => h.isToken x (List.mem_append_left _ hx)]
  refine ⟨hstart, ?_⟩
  rw [← width_eq.1, ← hstart]
  rfl

/-- The tokens behind an insertion before the anchor. -/
theorem tokens_before (h : Anchored d anchor first last cs left right) {new : Replacement}
    (ho : Patch.apply ⟨d.version, [.insert anchor.start new]⟩ d stamp = .ok o) :
    o.document.tree.tokens = left.map Site.stored ++ (tokensAll new.elements ++
      (anchor.tree.tokens ++ right.map Site.stored)) ++ [(.endOfFile, "")] :=
  Patch.tokens_of_apply (c := []) ho h.tree h.tokens h.solid h.widthOf_left.1
    (h.widthOf_left.1.trans (Nat.add_zero _).symm)

/-- The tokens behind a replacement of the anchor by itself and more. -/
theorem tokens_behind (h : Anchored d anchor first last cs left right) {target : Option Kind}
    {new : List Tree} {annotations : List Annotation}
    (ho : Patch.apply ⟨d.version, [⟨anchor.span, target, ⟨anchor.tree :: new, annotations⟩⟩]⟩ d
      stamp = .ok o) :
    o.document.tree.tokens = left.map Site.stored ++ (anchor.tree.tokens ++ tokensAll new ++
      right.map Site.stored) ++ [(.endOfFile, "")] :=
  Patch.tokens_of_apply ho h.tree h.tokens h.solid h.widthOf_left.1 h.widthOf_left.2

/-- What trails the last token of the anchor up to the end of its line. -/
theorem exists_line (h : Anchored d anchor first last cs left right)
    (hbreak : (last.trailingTrivia.getLast?).any (·.kind == .newline) = true) :
    ∃ trail newline rest, right = trail ++ newline :: rest ∧ newline.kind = .newline ∧
      last.trailingSpan.stop = widthOf (left.map Site.stored) + widthOf anchor.tree.tokens +
        widthOf ((trail ++ [newline]).map Site.stored) := by
  obtain ⟨stop, hstop, hrow⟩ := h.row
  obtain ⟨others, hlast⟩ := h.framed.ends
  have hsplit : d.root.subtokens = (left ++ others) ++ last :: (right ++ [stop]) := by
    rw [hrow, hlast]
    simp
  have htrail := h.clean.chain.trailingTrivia_eq hsplit h.framed.significant.2
  obtain ⟨rest, hrest⟩ : last.trailingTrivia <+: right := by
    have htrailing : last.trailingTrivia <+: (right ++ [stop]).takeWhile Site.isTrivia :=
      ⟨_, by rw [htrail, trailingPart_append_leadingPart]⟩
    rcases List.prefix_concat_iff.1 (htrailing.trans (List.takeWhile_prefix _)) with heq | hshort
    · have hmem := List.mem_takeWhile_imp (htrailing.subset (heq ▸ List.mem_concat_self))
      rw [hstop] at hmem
      cases hmem
    · exact hshort
  cases hnewline : last.trailingTrivia.getLast? with
  | none => simp [hnewline] at hbreak
  | some newline =>
      obtain ⟨trail, hsome⟩ := List.getLast?_eq_some_iff.1 hnewline
      refine ⟨trail, newline, rest, by rw [← hrest, hsome]; simp, by simpa [hnewline] using hbreak, ?_⟩
      have hrow : d.root.subtokens =
          (left ++ others) ++ last :: (last.trailingTrivia ++ (rest ++ [stop])) := by
        rw [hsplit, ← hrest]
        simp
      have htoken : ∀ x ∈ left ++ (anchor.leaves ++ (trail ++ [newline])), x.isToken = true := by
        intro x hx
        refine h.isToken x ?_
        rw [← hrest, hsome]
        simp only [List.mem_append] at hx ⊢
        tauto
      rw [h.clean.chain.trailingSpan_stop hrow, h.stored, Nat.add_assoc, ← widthOf_append,
        ← widthOf_append, ← List.map_append, ← List.map_append, widthOf_stored htoken, hsome, hlast]
      simp

/-- The tokens behind an insertion at the start of the next line. -/
theorem tokens_lines (h : Anchored d anchor first last cs left right) {trail rest : List Site}
    {newline : Site} (hright : right = trail ++ newline :: rest) {offset : Nat}
    (hoffset : offset = widthOf (left.map Site.stored) + widthOf anchor.tree.tokens +
      widthOf ((trail ++ [newline]).map Site.stored)) {new : Replacement}
    (ho : Patch.apply ⟨d.version, [.insert offset new]⟩ d stamp = .ok o) :
    o.document.tree.tokens = left.map Site.stored ++ (anchor.tree.tokens ++
      (trail ++ [newline]).map Site.stored) ++ (tokensAll new.elements ++ rest.map Site.stored) ++
      [(.endOfFile, "")] := by
  rw [Nat.add_assoc, ← widthOf_append, ← widthOf_append] at hoffset
  have htokens : tokensAll cs = (left.map Site.stored ++ (anchor.tree.tokens ++
      (trail ++ [newline]).map Site.stored)) ++ ([] ++ rest.map Site.stored) := by
    rw [h.tokens, hright]
    simp
  exact Patch.tokens_of_apply ho h.tree htokens h.solid hoffset (hoffset.trans (Nat.add_zero _).symm)

/-! ## Where the text is read as it was made -/

/-- The indentation of the line of the anchor reads back. -/
theorem divides_lead (h : Anchored d anchor first last cs left right) :
    Divides (spread (Editor.indentation (Editor.gapAt ⟨d, []⟩ first).2)) := by
  refine divides_indentation ?_
  unfold Editor.gapAt
  cases hindent : first.lineIndent? with
  | none => exact fun c hc => by simp at hc
  | some indent => exact h.isIndent hindent

/-- The separator is a line break that is read as one, or a blank. -/
theorem divides_gap (h : Anchored d anchor first last cs left right)
    (hbreaks : first.lineIndent?.isSome = true → '\n' ∈ (Editor.lineBreak ⟨d, []⟩).toList) :
    Divides (spread (Editor.gapPieces ⟨d, []⟩ first)) := by
  have hlead := h.divides_lead
  rw [Editor.gapPieces, spread_cons, tokens_separator]
  unfold Editor.gapAt at hlead ⊢
  cases hindent : first.lineIndent? with
  | none =>
      dsimp only
      rw [if_neg (by decide), spread_indentation, if_pos (by decide)]
      exact divides_whitespace isIndent_blank (List.cons_ne_nil ' ' [])
  | some indent =>
      rw [hindent] at hlead
      have hmem := hbreaks (by rw [hindent]; rfl)
      dsimp only at hlead ⊢
      rw [if_pos (by simpa using hmem)]
      intro lineStart rest hdark hlexes
      exact lexes_newline h.isBreak_lineBreak hmem _ _ (hlead true rest hdark hlexes)

/-- What stands to the right of the anchor reads back, as it did in the old text. -/
theorem lexes_right (h : Anchored d anchor first last cs left right) :
    Lexes false (right.map Site.stored) := by
  have hlexes := h.lexes
  rw [h.tokens] at hlexes
  have hright := hlexes.of_append.of_append
  rwa [lineStartAfter_of_closed h.ends] at hright

/-- Before the anchor only the first statement meets a token that it did not meet before. -/
theorem lexes_before (h : Anchored d anchor first last cs left right)
    (hbreaks : first.lineIndent?.isSome = true → '\n' ∈ (Editor.lineBreak ⟨d, []⟩).toList)
    {t : Tree} {ts : List Tree} (hsealed : ∀ u ∈ t :: ts, Sealed u.tokens)
    (hends : EndsClosed t.tokens)
    (hapart : ∀ x ∈ left.getLast?, x.isSignificant = true →
      Lexes true (left.map Site.stored ++ t.tokens)) :
    Lexes true (left.map Site.stored ++
      ((t :: ts).flatMap (fun u => u.tokens ++ spread (Editor.gapPieces ⟨d, []⟩ first)) ++
        (anchor.tree.tokens ++ right.map Site.stored))) := by
  have hgap := h.divides_gap hbreaks
  have hdark := h.sealed.dark.append (right.map Site.stored)
  have hanchor := fun ls => h.sealed.lexes ls _ h.lexes_right
  obtain ⟨hnew, hlexes⟩ := lexes_gapped hgap hdark hanchor hsealed
  have hold := h.lexes
  rw [h.tokens] at hold
  rcases List.eq_nil_or_concat left with rfl | ⟨front, x, rfl⟩
  · exact hlexes true
  · rw [List.concat_eq_append] at hapart hold ⊢
    cases htrivia : x.isTrivia with
    | true =>
        have hx : x.stored.1.isTrivia = true := by
          rw [isTrivia_stored (h.isToken x (by simp)), htrivia]
        rw [List.map_append, List.append_assoc] at hold ⊢
        exact Lexes.behind_trivia hold hx hdark hnew hlexes
    | false =>
        obtain ⟨htail, htailLexes⟩ := lexes_gapped hgap hdark hanchor
          fun u hu => hsealed u (List.mem_cons_of_mem t hu)
        have hfirst := hapart x (by simp) (by simp [isSignificant, htrivia])
        rw [List.flatMap_cons, List.append_assoc, List.append_assoc, ← List.append_assoc]
        rw [← List.append_nil (_ ++ t.tokens)] at hfirst
        exact hfirst.closed (hends.append_right _) (hgap _ _ htail htailLexes)

/-- Behind the anchor, on its line or not. -/
theorem lexes_behind (h : Anchored d anchor first last cs left right)
    (hbreaks : first.lineIndent?.isSome = true → '\n' ∈ (Editor.lineBreak ⟨d, []⟩).toList)
    {statements : List Tree} (hsealed : ∀ t ∈ statements, Sealed t.tokens) :
    Lexes true (left.map Site.stored ++ (anchor.tree.tokens ++
      statements.flatMap (fun t => spread (Editor.gapPieces ⟨d, []⟩ first) ++ t.tokens) ++
        right.map Site.stored)) := by
  have hold := h.lexes
  rw [h.tokens, ← List.append_assoc] at hold
  rw [List.append_assoc, ← List.append_assoc]
  exact hold.closed (h.ends.append_right _)
    (lexes_behind_gaps (h.divides_gap hbreaks) h.lexes_right hsealed)

/-- Behind the line of the anchor. -/
theorem lexes_behind_line (h : Anchored d anchor first last cs left right)
    (hmem : '\n' ∈ (Editor.lineBreak ⟨d, []⟩).toList) {trail rest : List Site} {newline : Site}
    (hright : right = trail ++ newline :: rest) (hnewline : newline.kind = .newline)
    {statements : List Tree} (hne : statements ≠ [])
    (hsealed : ∀ t ∈ statements, Sealed t.tokens) :
    Lexes true (left.map Site.stored ++ (anchor.tree.tokens ++
      (trail ++ [newline]).map Site.stored) ++
        (statements.flatMap (fun t =>
          spread (Editor.indentation (Editor.gapAt ⟨d, []⟩ first).2) ++
            (t.tokens ++ [(.newline, Editor.lineBreak ⟨d, []⟩)])) ++ rest.map Site.stored)) := by
  have hold := h.lexes
  have hstored : newline.stored = (.newline, newline.text) := congrArg (·, newline.text) hnewline
  have hsplit : tokensAll cs = (left.map Site.stored ++ (anchor.tree.tokens ++
      trail.map Site.stored)) ++ (.newline, newline.text) :: rest.map Site.stored := by
    rw [h.tokens, hright, ← hstored]
    simp
  rw [hsplit] at hold
  have hbreak := hold.of_append.isBreak
  have hrest : Lexes true (rest.map Site.stored) := by
    cases hold.of_append with
    | cons chars front hrest => exact hrest
  have hlines := lexes_lines h.divides_lead
    (fun ls xs => lexes_newline h.isBreak_lineBreak hmem ls xs) hrest hsealed
  have hhead := head_of_lines hlines hne hsealed
  have hnew := hold.behind (near_behind hbreak _ _) (.newline hbreak (fun _ => hhead) hlines)
  rw [← hstored] at hnew
  simpa using hnew

/-! ## What is read shows what was made -/

/-- A separator that reads back as it was made is a line break with a line feed. -/
theorem break_of_lexes (h : Anchored d anchor first last cs left right)
    (hline : first.lineIndent?.isSome = true) {xs : Stored} (hlexes : Lexes true xs)
    (hmem : ∀ x ∈ (Editor.separator (Editor.gapAt ⟨d, []⟩ first).1).tokens, x ∈ xs) :
    '\n' ∈ (Editor.lineBreak ⟨d, []⟩).toList := by
  obtain ⟨indent, hindent⟩ := Option.isSome_iff_exists.1 hline
  simp only [Editor.gapAt, hindent, tokens_separator] at hmem
  by_contra hno
  rw [if_neg (by simpa using hno)] at hmem
  obtain ⟨-, hblank⟩ := hlexes.blanks (hmem _ List.mem_cons_self) rfl
  obtain ⟨x, b, htext, hb⟩ := h.isBreak_lineBreak.ends
  have hlast := hblank b (by rw [htext]; simp)
  rw [hb] at hlast
  simp at hlast

section

variable {statements : List Tree}

/-- Before the anchor. -/
theorem readsBack_before_iff (h : Anchored d anchor first last cs left right) (hne : statements ≠ [])
    (hsealed : ∀ t ∈ statements, Sealed t.tokens ∧ EndsClosed t.tokens)
    (ho : Patch.apply ⟨d.version, [.insert anchor.start (.ofPieces
      (statements.flatMap fun t => (t, true) :: Editor.gapPieces ⟨d, []⟩ first))]⟩ d stamp = .ok o) :
    ReadsBack o.document.tree.tokens ↔
      (first.lineIndent?.isSome = true → '\n' ∈ (Editor.lineBreak ⟨d, []⟩).toList) ∧
      ∀ t ∈ statements.head?, ∀ x ∈ left.getLast?, x.isSignificant = true →
        Lexes true (left.map Site.stored ++ t.tokens) := by
  obtain ⟨t, ts, rfl⟩ := List.exists_cons_of_ne_nil hne
  obtain ⟨hfirst, -⟩ := List.forall_mem_cons.1 hsealed
  rw [h.tokens_before ho, CodeMend.readsBack_iff]
  show Lexes true (_ ++ (spread _ ++ _)) ↔ _
  simp only [spread_flatMap, spread_cons]
  constructor
  · intro hlexes
    refine ⟨fun hline => h.break_of_lexes hline hlexes fun x hx => ?_, fun u hu _ _ _ => ?_⟩
    · simp [Editor.gapPieces, spread_cons, hx]
    · obtain rfl := Option.some.inj hu
      rw [List.flatMap_cons, List.append_assoc, List.append_assoc, ← List.append_assoc] at hlexes
      simpa using hlexes.closed (hfirst.2.append_right _) (.nil false)
  · rintro ⟨hbreaks, hapart⟩
    exact h.lexes_before hbreaks (fun u hu => (hsealed u hu).1) hfirst.2 (hapart t rfl)

/-- Behind the line of the anchor. -/
theorem readsBack_lines_iff (h : Anchored d anchor first last cs left right)
    (hline : first.lineIndent?.isSome = true)
    (hbreak : (last.trailingTrivia.getLast?).any (·.kind == .newline) = true)
    (hne : statements ≠ []) (hsealed : ∀ t ∈ statements, Sealed t.tokens)
    (ho : Patch.apply ⟨d.version, [.insert last.trailingSpan.stop (.ofPieces
      (statements.flatMap fun t => Editor.indentation (Editor.gapAt ⟨d, []⟩ first).2 ++
        [(t, true), (Editor.separator (Editor.gapAt ⟨d, []⟩ first).1, false)]))]⟩ d stamp = .ok o) :
    ReadsBack o.document.tree.tokens ↔ '\n' ∈ (Editor.lineBreak ⟨d, []⟩).toList := by
  obtain ⟨t, ts, rfl⟩ := List.exists_cons_of_ne_nil hne
  obtain ⟨trail, newline, rest, hright, hnewline, hstop⟩ := h.exists_line hbreak
  rw [h.tokens_lines hright hstop ho, CodeMend.readsBack_iff]
  show Lexes true (_ ++ (spread _ ++ _)) ↔ _
  simp only [spread_flatMap, spread_append, spread_cons]
  constructor
  · intro hlexes
    exact h.break_of_lexes hline hlexes fun x hx => by simp [hx]
  · intro hmem
    have hseparator : (Editor.separator (Editor.gapAt ⟨d, []⟩ first).1).tokens =
        [(.newline, Editor.lineBreak ⟨d, []⟩)] := by
      obtain ⟨indent, hindent⟩ := Option.isSome_iff_exists.1 hline
      rw [Editor.gapAt, hindent, tokens_separator, if_pos (by simpa using hmem)]
    simpa only [hseparator, spread_nil, List.append_nil] using
      h.lexes_behind_line hmem hright hnewline hne hsealed

/-- Right behind the anchor. -/
theorem readsBack_behind_iff (h : Anchored d anchor first last cs left right) (hne : statements ≠ [])
    (hsealed : ∀ t ∈ statements, Sealed t.tokens) {annotations : List Annotation}
    (ho : Patch.apply ⟨d.version, [⟨anchor.span, some anchor.kind, ⟨anchor.tree ::
      (statements.flatMap fun t => Editor.gapPieces ⟨d, []⟩ first ++ [(t, true)]).map Prod.fst,
        annotations⟩⟩]⟩ d stamp = .ok o) :
    ReadsBack o.document.tree.tokens ↔
      (first.lineIndent?.isSome = true → '\n' ∈ (Editor.lineBreak ⟨d, []⟩).toList) := by
  obtain ⟨t, ts, rfl⟩ := List.exists_cons_of_ne_nil hne
  rw [h.tokens_behind ho, CodeMend.readsBack_iff]
  show Lexes true (_ ++ (_ ++ spread _ ++ _)) ↔ _
  simp only [spread_flatMap, spread_append, spread_cons]
  constructor
  · intro hlexes hline
    exact h.break_of_lexes hline hlexes fun x hx => by simp [Editor.gapPieces, spread_cons, hx]
  · intro hbreaks
    simpa only [spread_nil, List.append_nil] using h.lexes_behind hbreaks hsealed

/-- What the splice of the statements makes of the text is read as it was made, if the separator is
and the first statement is read apart from the token before it. -/
theorem readsBack_iff (h : Anchored d anchor first last cs left right)
    {position : InsertPosition} {s : Splice}
    (hplaced : Editor.Placed ⟨d, []⟩ anchor first last statements position s)
    (hne : statements ≠ []) (hsealed : ∀ t ∈ statements, Sealed t.tokens ∧ EndsClosed t.tokens)
    (ho : Patch.apply ⟨d.version, [s]⟩ d stamp = .ok o) :
    ReadsBack o.document.tree.tokens ↔
      (first.lineIndent?.isSome = true → '\n' ∈ (Editor.lineBreak ⟨d, []⟩).toList) ∧
      (position = .before → ∀ t ∈ statements.head?, ∀ x ∈ left.getLast?, x.isSignificant = true →
        Lexes true (left.map Site.stored ++ t.tokens)) := by
  have hall : ∀ u ∈ statements, Sealed u.tokens := fun u hu => (hsealed u hu).1
  cases hplaced with
  | before => simpa using h.readsBack_before_iff hne hsealed ho
  | lines hline hbreak => simpa [hline] using h.readsBack_lines_iff hline hbreak hne hall ho
  | behind annotations => simpa using h.readsBack_behind_iff hne hall ho

end

end Anchored

/-! ## The text of the new tree -/

/-- If the anchor comes first on its line, then the line break that is put between it and the
statements has a line feed. -/
def Document.FeedsLines (d : Document) (anchor : Site) : Prop :=
  ∀ first ∈ anchor.firstSignificant?, first.lineIndent?.isSome = true →
    '\n' ∈ (Editor.lineBreak ⟨d, []⟩).toList

/-- If the anchor stands right behind a token that is not trivia, then the statement is read apart
from the tokens before when it is put there. -/
def Site.ReadsApart (anchor : Site) (statement : Tree) : Prop :=
  ∀ first ∈ anchor.firstSignificant?, ∀ token ∈ first.tokensBefore.head?,
    token.isSignificant = true → ReadsBack
      (first.tokensBefore.reverse.map Site.stored ++ statement.tokens ++ [(.endOfFile, "")])

/-- **When inserted statements leave tree and text alike.**  The text of the new tree is cut into the
tokens of the tree, white space included, and without a complaint, if and only if the line breaks that
are put in have a line feed, and no statement that is put right behind a token is joined to it. -/
theorem statements_read_back {version stamp : Nat} {text : String}
    (herr : (Document.ofText version text).errors = []) {anchor : Site}
    (hanchor : anchor ∈ (Document.ofText version text).root.subnodes)
    (hkind : anchor.kind.isStatement = true) {statements : List Tree} (hne : statements ≠ [])
    (hstatements : ∀ t ∈ statements, ∃ source, Snippet.statement source = some t)
    {position : InsertPosition} {o : Outcome}
    (ho : (Document.ofText version text).insertStatements anchor statements position stamp = .ok o) :
    ((lex o.document.text).1.map Token.stored = o.document.tree.tokens ∧
      (lex o.document.text).2 = []) ↔
    (Document.ofText version text).FeedsLines anchor ∧
      (position = .before → ∀ t ∈ statements.head?, anchor.ReadsApart t) := by
  obtain ⟨first, last, cs, left, right, h⟩ := Document.exists_anchored herr hanchor hkind
  obtain ⟨e, he, ho⟩ := bind_eq_ok ho
  obtain ⟨s, rfl, hplaced⟩ := Editor.insertStatements_ok he hne h.framed
  have hsealed : ∀ t ∈ statements, Sealed t.tokens ∧ EndsClosed t.tokens := by
    intro t ht
    obtain ⟨source, hsource⟩ := hstatements t ht
    exact Snippet.statement_sealed hsource
  have hiff := h.readsBack_iff hplaced hne hsealed ho
  have hfirst : anchor.firstSignificant? = some first := h.framed.firstSignificant
  simp only [Document.FeedsLines, Site.ReadsApart, hfirst, Option.mem_def, Option.some.injEq,
    forall_eq', h.tokensBefore, List.head?_reverse, List.reverse_reverse, readsBack_iff] at hiff ⊢
  exact hiff

instance (xs : Stored) : Decidable (ReadsBack xs) := inferInstanceAs (Decidable (_ ∧ _))

instance (anchor : Site) (statement : Tree) : Decidable (anchor.ReadsApart statement) :=
  inferInstanceAs (Decidable (∀ first ∈ anchor.firstSignificant?, _))

/-- A statement next to the first node of a kind, and what comes of it. -/
def Document.insertion? (d : Document) (k : Kind) (source : String) (position : InsertPosition) :
    Option (Tree × Outcome) := do
  let t ← Snippet.statement source
  let o ← (d.insertStatements (d.firstNode k) [t] position 2).toOption
  some (t, o)

/-- What is computed from an insertion comes from a statement that was read and a patch that
went through. -/
theorem Document.exists_of_insertion? {d : Document} {k : Kind} {source : String}
    {position : InsertPosition} {α : Type} {f : Tree × Outcome → α} {a : α}
    (h : (d.insertion? k source position).map f = some a) :
    ∃ t o, Snippet.statement source = some t ∧
      d.insertStatements (d.firstNode k) [t] position 2 = .ok o ∧ f (t, o) = a := by
  obtain ⟨⟨t, o⟩, hinsertion, hf⟩ := Option.map_eq_some_iff.1 h
  simp only [insertion?, Option.bind_eq_bind, Option.bind_eq_some_iff, Option.some.injEq,
    Prod.mk.injEq] at hinsertion
  obtain ⟨_, ht, _, ho, rfl, rfl⟩ := hinsertion
  refine ⟨_, _, ht, ?_, hf⟩
  generalize d.insertStatements (d.firstNode k) _ position 2 = result at ho
  cases result with
  | error reason => cases ho
  | ok o => exact congrArg _ (Option.some.inj ho)

/-- Right behind a brace, which takes in nothing. -/
theorem statements_read_back_brace :
    let d := Document.ofText 1 "class C\x7bvoid M()\x7bA();\x7d\x7d"
    ∃ t o, Snippet.statement "B();" = some t ∧
      d.insertStatements (d.firstNode .expressionStatement) [t] .before 2 = .ok o ∧
      o.document.text = "class C\x7bvoid M()\x7bB(); A();\x7d\x7d" ∧
      (lex o.document.text).1.map Token.stored = o.document.tree.tokens := by
  intro d
  have hinsertion : (d.insertion? .expressionStatement "B();" .before).map (fun x =>
      (decide ((d.firstNode .expressionStatement).ReadsApart x.1), x.2.document.text)) =
      some (true, "class C\x7bvoid M()\x7bB(); A();\x7d\x7d") := by decide +kernel
  obtain ⟨t, o, ht, ho, hf⟩ := Document.exists_of_insertion? hinsertion
  obtain ⟨hapart, htext⟩ := Prod.mk.inj hf
  refine ⟨t, o, ht, ho, htext, ?_⟩
  have hfeeds : d.FeedsLines (d.firstNode .expressionStatement) := fun _ _ _ => by decide +kernel
  refine ((statements_read_back (List.isEmpty_iff.1 (by decide +kernel))
    (Document.firstNode_mem (by decide +kernel)) (by decide +kernel) (List.cons_ne_nil t [])
    (List.forall_mem_singleton.2 ⟨_, ht⟩) ho).2 ⟨hfeeds, fun _ u hu => ?_⟩).1
  obtain rfl := Option.some.inj hu
  exact of_decide_eq_true hapart

/-- **Inserted statements can part tree and text.**  In a text whose lines end with a lone carriage
return, the line break behind the statement stands in the tree as white space. -/
theorem not_statements_read_back : ¬ ∀ (version stamp : Nat) (text : String) (anchor : Site)
    (statements : List Tree) (position : InsertPosition) (o : Outcome),
    (Document.ofText version text).errors = [] →
      anchor ∈ (Document.ofText version text).root.subnodes →
      anchor.kind.isStatement = true → statements ≠ [] →
      (∀ t ∈ statements, ∃ source, Snippet.statement source = some t) →
      (Document.ofText version text).insertStatements anchor statements position stamp = .ok o →
      ((lex o.document.text).1.map Token.stored).filter (·.1 != .whitespace) =
        o.document.tree.tokens.filter (·.1 != .whitespace) := by
  intro h
  let d := Document.ofText 1 "class C\x7bvoid M()\x7b\rA();\r\x7d\x7d"
  have hinsertion : (d.insertion? .expressionStatement "B();" .before).map (fun x => decide
      (((lex x.2.document.text).1.map Token.stored).filter (·.1 != .whitespace) =
        x.2.document.tree.tokens.filter (·.1 != .whitespace))) = some false := by decide +kernel
  obtain ⟨t, o, ht, ho, hparted⟩ := Document.exists_of_insertion? hinsertion
  exact of_decide_eq_false hparted (h 1 2 _ _ [t] .before o (List.isEmpty_iff.1 (by decide +kernel))
    (Document.firstNode_mem (by decide +kernel)) (by decide +kernel) (List.cons_ne_nil t [])
    (List.forall_mem_singleton.2 ⟨_, ht⟩) ho)

-- Right behind a keyword, the keyword takes in the first word of the statement.
example :
    let d := Document.ofText 1 "class C\x7bvoid M()\x7bif(a)b();else;\x7d\x7d"
    (d.insertion? .emptyStatement "M();" .before).map (fun x =>
      (decide ((d.firstNode .emptyStatement).ReadsApart x.1), x.2.document.text)) =
    some (false, "class C\x7bvoid M()\x7bif(a)b();elseM(); ;\x7d\x7d") := by
  decide +kernel

end CodeMend
