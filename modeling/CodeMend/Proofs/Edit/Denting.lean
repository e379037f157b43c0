import CodeMend.Proofs.Edit.Grafting
import CodeMend.Proofs.Trivia.Lines

/-!
# White space in the place of white space

`Dent` follows one splice of white space down a tree: it ends among the children of some node, never
at the start of a node below the root, and swaps white space for white space there.  At the front of
a line the tree without indentation stays the same (`Dent.dedented`).

White space can be inserted at every border between tokens (`insert_dent`) and replaced wherever it
stands (`replace_dent`), also in the tree of a broken text: no node starts with it.
-/

namespace CodeMend

open Tree Lexer

/-! ## Trees without indentation -/

namespace Tree

mutual

/-- A tree without the white space at the front of lines.  `lineStart` says that only white space has
been seen on the line. -/
def dedent (lineStart : Bool) : Tree → List Tree
  | token k s => if lineStart && k == .whitespace then [] else [token k s]
  | node k cs => [node k (dedentAll lineStart cs)]

/-- Trees in a row without the white space at the front of lines. -/
def dedentAll (lineStart : Bool) : List Tree → List Tree
  | [] => []
  | t :: ts => dedent lineStart t ++ dedentAll (lineStartAfter lineStart t.tokens) ts

end

/-- The tree of a text without the white space at the front of lines. -/
def dedented (t : Tree) : List Tree := dedent true t

theorem lineStartAfter_append (lineStart : Bool) (xs ys : Stored) :
    lineStartAfter lineStart (xs ++ ys) = lineStartAfter (lineStartAfter lineStart xs) ys :=
  List.foldl_append

/-- White space at the front of a line leaves nothing. -/
theorem dedentAll_spaces {new : List Tree} (h : ∀ t ∈ new, t.isSpace = true) (rest : List Tree) :
    lineStartAfter true (tokensAll new) = true ∧
      dedentAll true (new ++ rest) = dedentAll true rest := by
  induction new with
  | nil => exact ⟨rfl, rfl⟩
  | cons t new ih =>
      obtain ⟨ht, hnew⟩ := List.forall_mem_cons.1 h
      obtain ⟨hline, hrest⟩ := ih hnew
      cases t with
      | node k cs => cases ht
      | token k s =>
          obtain rfl : Kind.whitespace = k := by simpa [isSpace, isTokenOf] using ht
          have hstart : lineStartAfter true (token .whitespace s).tokens = true := rfl
          constructor
          · rw [tokensAll, lineStartAfter_append, hstart, hline]
          · rw [List.cons_append, dedentAll, hstart, hrest]
            rfl

/-- There is no node to check among white space. -/
theorem everyNodeAmong_spaces {P : Kind → List Tree → Prop} {new : List Tree}
    (h : ∀ t ∈ new, t.isSpace = true) : EveryNodeAmong P new := by
  induction new with
  | nil => trivial
  | cons t new ih =>
      obtain ⟨ht, hnew⟩ := List.forall_mem_cons.1 h
      cases t with
      | node k cs => cases ht
      | token k s => exact ⟨trivial, ih hnew⟩

theorem tightAll_spaces {new : List Tree} (h : ∀ t ∈ new, t.isSpace = true) : tightAll new = [] := by
  rw [tightAll_eq, List.filter_eq_nil_iff.2 fun t ht => by simp [h t ht]]
  rfl

/-! ## One stretch of white space for another -/

/-- In a row of trees `old` gives way to `new`, behind the given tokens.  Below a node it does not
happen at the start. -/
inductive Dent (old new : List Tree) : Stored → List Tree → List Tree → Prop
  | here (rest : List Tree) : Dent old new [] (old ++ rest) (new ++ rest)
  | later (t : Tree) {front : Stored} {ts ts' : List Tree} :
      Dent old new front ts ts' → Dent old new (t.tokens ++ front) (t :: ts) (t :: ts')
  | inside (k : Kind) (rest : List Tree) {front : Stored} {cs cs' : List Tree} (ne : front ≠ []) :
      Dent old new front cs cs' → Dent old new front (.node k cs :: rest) (.node k cs' :: rest)

namespace Dent

variable {old new ts ts' : List Tree} {front : Stored}

/-- The tokens before the white space and behind it stay. -/
theorem tokens (h : Dent old new front ts ts') :
    ∃ back, tokensAll ts = front ++ (tokensAll old ++ back) ∧
      tokensAll ts' = front ++ (tokensAll new ++ back) := by
  induction h with
  | here rest => exact ⟨tokensAll rest, tokensAll_append _ _, tokensAll_append _ _⟩
  | later t _ ih =>
      obtain ⟨back, hold, hnew⟩ := ih
      exact ⟨back, by simp [tokensAll, hold], by simp [tokensAll, hnew]⟩
  | inside k rest _ _ ih =>
      obtain ⟨back, hold, hnew⟩ := ih
      exact ⟨back ++ tokensAll rest, by simp [tokensAll, Tree.tokens, hold],
        by simp [tokensAll, Tree.tokens, hnew]⟩

theorem tightAll_eq (h : Dent old new front ts ts') (hold : ∀ t ∈ old, t.isSpace = true)
    (hnew : ∀ t ∈ new, t.isSpace = true) : tightAll ts' = tightAll ts := by
  induction h with
  | here rest => simp [tightAll_spaces hold, tightAll_spaces hnew]
  | later t _ ih => simp only [tightAll, ih]
  | @inside k rest front cs cs' _ _ ih =>
      rw [tightAll_cons_of_not rfl, tightAll_cons_of_not rfl, tight, tight, ih]

/-- **Only the front of a line changes.** -/
theorem dedented (h : Dent old new front ts ts') (hold : ∀ t ∈ old, t.isSpace = true)
    (hnew : ∀ t ∈ new, t.isSpace = true) {lineStart : Bool}
    (hfront : lineStartAfter lineStart front = true) :
    dedentAll lineStart ts' = dedentAll lineStart ts := by
  induction h generalizing lineStart with
  | here rest =>
      obtain rfl : lineStart = true := hfront
      rw [(dedentAll_spaces hold rest).2, (dedentAll_spaces hnew rest).2]
  | later t _ ih =>
      rw [lineStartAfter_append] at hfront
      rw [dedentAll, dedentAll, ih hfront]
  | @inside k rest front cs cs' _ hdent ih =>
      obtain ⟨back, hcs, hcs'⟩ := hdent.tokens
      -- white space does not end the front of the line, so what follows starts as before
      have hafter : lineStartAfter lineStart (tokensAll cs') =
          lineStartAfter lineStart (tokensAll cs) := by
        rw [hcs, hcs', lineStartAfter_append, lineStartAfter_append, lineStartAfter_append,
          lineStartAfter_append, hfront, (dedentAll_spaces hold []).1, (dedentAll_spaces hnew []).1]
      rw [dedentAll, dedentAll, dedent, dedent, ih hfront, Tree.tokens, Tree.tokens, hafter]

/-- A row whose nodes start without trivia still has such nodes, as white space is put between
nodes only. -/
theorem fresh (h : Dent old new front ts ts') (hnew : ∀ t ∈ new, t.isSpace = true)
    (hfresh : EveryNodeAmong FreshNode ts) : EveryNodeAmong FreshNode ts' := by
  induction h with
  | here rest =>
      exact everyNodeAmong_append.2 ⟨everyNodeAmong_spaces hnew, (everyNodeAmong_append.1 hfresh).2⟩
  | later t _ ih => exact ⟨hfresh.1, ih hfresh.2⟩
  | @inside k rest front cs cs' ne hdent ih =>
      obtain ⟨back, hcs, hcs'⟩ := hdent.tokens
      obtain ⟨x, others, rfl⟩ := List.exists_cons_of_ne_nil ne
      refine ⟨⟨fun y hy => hfresh.1.1 y ?_, ih hfresh.1.2⟩, hfresh.2⟩
      rw [hcs'] at hy
      rw [hcs]
      exact hy

end Dent

/-! ## The splices of a line -/

/-- **White space is inserted** between tokens, as high up as possible. -/
theorem insert_dent (new : List Tree) :
    (∀ t : Tree, ∀ here front x back, t.tokens = front ++ x :: back → (∀ y ∈ front, y.2 ≠ "") →
      x.2 ≠ "" → front ≠ [] → ∃ k cs cs', t = .node k cs ∧
        insertIn here (here + widthOf front) new t = .ok (.node k cs') ∧ Dent [] new front cs cs') ∧
    ∀ ts here front x back, tokensAll ts = front ++ x :: back → (∀ y ∈ front, y.2 ≠ "") →
      x.2 ≠ "" → ∃ ts', insertAmong here (here + widthOf front) new ts = .ok ts' ∧
        Dent [] new front ts ts' := by
  apply induct
  · intro k s here front x back htokens _ _ hne
    obtain ⟨y, others, rfl⟩ := List.exists_cons_of_ne_nil hne
    simp [Tree.tokens] at htokens
  · intro k cs ih here front x back htokens hfront hx _
    obtain ⟨cs', hcs', hdent⟩ := ih here front x back htokens hfront hx
    exact ⟨k, cs, cs', rfl, by rw [insertIn, hcs']; rfl, hdent⟩
  · intro here front x back htokens
    simp [tokensAll] at htokens
  · intro t ts ht hts here front x back htokens hfront hx
    by_cases hne : front = []
    · subst hne
      exact ⟨new ++ t :: ts, by rw [insertAmong, if_pos (by simp)], Dent.here (t :: ts)⟩
    have hpos : 0 < widthOf front := by
      refine Nat.pos_of_ne_zero fun hzero => hne ?_
      rw [← solid_eq_self hfront, solid_eq_nil hzero]
    have hrow : t.tokens ++ tokensAll ts = front ++ x :: back := htokens
    have hwidth := width_eq.1 t
    rw [insertAmong, if_neg (by omega)]
    rcases Site.append_eq_append_cons_cases hrow with ⟨more, htree, -⟩ | ⟨more, rfl, hts'⟩
    · -- the border lies inside the tree, since a token with text follows it there
      have hinside : here + widthOf front < here + t.width := by
        have := Nat.pos_of_ne_zero fun hzero => hx (String.utf8ByteSize_eq_zero_iff.1 hzero)
        rw [hwidth, htree, widthOf_append, widthOf_cons]
        omega
      obtain ⟨k, cs, cs', rfl, hcs', hdent⟩ := ht here front x more htree hfront hx hne
      exact ⟨.node k cs' :: ts, by rw [if_pos hinside, hcs']; rfl, hdent.inside k ts hne⟩
    · obtain ⟨ts', hinsert, hdent⟩ := hts (here + t.width) more x back hts'
        (fun y hy => hfront y (List.mem_append_right _ hy)) hx
      rw [if_neg (by rw [widthOf_append]; omega)]
      refine ⟨t :: ts', ?_, hdent.later t⟩
      rw [widthOf_append, ← hwidth, ← Nat.add_assoc, hinsert]
      rfl

/-- **White space is replaced** where it stands; no node starts with it, so none goes with it. -/
theorem replace_dent {w : String} (hw : w ≠ "") (new : List Tree) :
    (∀ t : Tree, t.EveryNode FreshNode → ∀ here whole front back,
      t.tokens = front ++ (.whitespace, w) :: back → (∀ y ∈ front, y.2 ≠ "") → front ≠ [] →
      ∃ k cs cs', t = .node k cs ∧
        replaceIn here whole ⟨here + widthOf front, here + widthOf front + w.utf8ByteSize⟩ none new t =
          .ok (.node k cs') ∧ Dent [.token .whitespace w] new front cs cs') ∧
    ∀ ts, EveryNodeAmong FreshNode ts → ∀ here front back,
      tokensAll ts = front ++ (.whitespace, w) :: back → (∀ y ∈ front, y.2 ≠ "") →
      ∃ ts', replaceAmong here ⟨here + widthOf front, here + widthOf front + w.utf8ByteSize⟩ none
          (some new) ts = .ok ts' ∧ Dent [.token .whitespace w] new front ts ts' := by
  have hpos : 0 < w.utf8ByteSize :=
    Nat.pos_of_ne_zero fun hzero => hw (String.utf8ByteSize_eq_zero_iff.1 hzero)
  apply induct
  · intro k s _ here whole front back htokens _ hne
    obtain ⟨y, others, rfl⟩ := List.exists_cons_of_ne_nil hne
    simp [Tree.tokens] at htokens
  · intro k cs ih hfresh here whole front back htokens hfront _
    obtain ⟨cs', hcs', hdent⟩ := ih hfresh.2 here front back htokens hfront
    exact ⟨k, cs, cs', rfl, by rw [replaceIn, hcs']; rfl, hdent⟩
  · intro _ here front back htokens
    simp [tokensAll] at htokens
  · intro t ts ht hts hfresh here front back htokens hfront
    have hrow : t.tokens ++ tokensAll ts = front ++ (.whitespace, w) :: back := htokens
    have hwidth := width_eq.1 t
    rw [replaceAmong]
    dsimp only
    rcases Site.append_eq_append_cons_cases hrow with ⟨more, htree, -⟩ | ⟨more, rfl, hts'⟩
    · rw [htree, widthOf_append, widthOf_cons] at hwidth
      dsimp only at hwidth
      rw [if_neg (by omega), if_neg (by omega)]
      by_cases hne : front = []
      · -- what starts with white space is a token
        subst hne
        cases t with
        | node k cs =>
            have htrivia : Kind.whitespace.isTrivia = false :=
              hfresh.1.1 (.whitespace, w) (by rw [show tokensAll cs = _ from htree]; rfl)
            cases htrivia
        | token k s =>
            obtain ⟨⟨rfl, rfl⟩, rfl⟩ : (k = .whitespace ∧ s = w) ∧ more = [] := by
              simpa [Tree.tokens, eq_comm] using htree
            have hbehind : replaceAmong (here + s.utf8ByteSize) ⟨here, here + s.utf8ByteSize⟩ none
                none ts = .ok ts :=
              Site.replaceAmong_behind (by omega) (Nat.le_refl _) none ts
            refine ⟨new ++ ts, ?_, Dent.here ts⟩
            simp only [widthOf_nil, Nat.add_zero, width, Nat.lt_irrefl, if_false, Nat.le_refl, if_true,
              descends, Option.any_none, Bool.and_false, Bool.false_eq_true, Option.getD_some, hbehind]
            rfl
      · have hfrontPos : 0 < widthOf front := by
          refine Nat.pos_of_ne_zero fun hzero => hne ?_
          rw [← solid_eq_self hfront, solid_eq_nil hzero]
        rw [if_pos (by omega)]
        split
        -- the white space is inside of the tree
        · obtain ⟨k, cs, cs', rfl, hcs', hdent⟩ := ht hfresh.1 here
            ⟨here + widthOf front, here + widthOf front + w.utf8ByteSize⟩ front more htree hfront hne
          exact ⟨.node k cs' :: ts, by rw [Option.getD_some, hcs']; rfl, hdent.inside k ts hne⟩
        · -- the white space is the last of the tree, and nothing behind it is touched
          have hend : here + t.width = here + widthOf front + w.utf8ByteSize := by omega
          obtain ⟨k, cs, cs', rfl, hcs', hdent⟩ := ht hfresh.1 here
            ⟨here + widthOf front, here + widthOf front + w.utf8ByteSize⟩ front more htree hfront hne
          refine ⟨.node k cs' :: ts, ?_, hdent.inside k ts hne⟩
          rw [hend, Site.replaceAmong_behind (by omega) (Nat.le_refl _), Option.getD_some, hcs']
          rfl
    -- the white space is in a later tree of the row
    · obtain ⟨ts', hreplace, hdent⟩ := hts hfresh.2 (here + t.width) more back hts'
        (fun y hy => hfront y (List.mem_append_right _ hy))
      refine ⟨t :: ts', ?_, hdent.later t⟩
      rw [widthOf_append, ← hwidth, ← Nat.add_assoc, if_pos (by omega), hreplace]
      rfl

end Tree

end CodeMend
