import CodeMend.Syntax.Tree

/-!
# Nodes and tokens of a tree

Induction over a tree and over rows of trees together, the tokens of a row, and properties that all
nodes of a tree share.  A tree stores its text only in its tokens, so width and text are those of
`Tree.tokens`.
-/

namespace CodeMend

/-- Tokens as a tree stores them. -/
abbrev Stored := List (Kind × String)

namespace Tree

/-- Induction over trees and rows of trees. -/
theorem induct {P : Tree → Prop} {Q : List Tree → Prop} (token : ∀ k s, P (.token k s))
    (node : ∀ k cs, Q cs → P (.node k cs)) (nil : Q []) (cons : ∀ t ts, P t → Q ts → Q (t :: ts)) :
    (∀ t, P t) ∧ ∀ ts, Q ts :=
  ⟨fun t => Tree.rec token node nil cons t, fun ts => Tree.rec_1 token node nil cons ts⟩

/-! ## Text of tokens -/

/-- The text of stored tokens. -/
def textOf (xs : Stored) : String := String.join (xs.map Prod.snd)

/-- No tokens have no text. -/
@[simp] theorem textOf_nil : textOf [] = "" := rfl

/-- The texts of two rows of tokens, one behind the other. -/
@[simp] theorem textOf_append (xs ys : Stored) : textOf (xs ++ ys) = textOf xs ++ textOf ys := by
  simp [textOf, String.join_append]

/-- The text of the first token, and that of the others. -/
@[simp] theorem textOf_cons (x : Kind × String) (xs : Stored) :
    textOf (x :: xs) = x.2 ++ textOf xs := by
  simp [textOf, String.join_cons]

/-- The number of bytes of stored tokens. -/
def widthOf (xs : Stored) : Nat := (textOf xs).utf8ByteSize

/-- No tokens have no bytes. -/
@[simp] theorem widthOf_nil : widthOf [] = 0 := rfl

/-- The bytes of two rows of tokens add up. -/
@[simp] theorem widthOf_append (xs ys : Stored) : widthOf (xs ++ ys) = widthOf xs + widthOf ys := by
  simp [widthOf, String.utf8ByteSize_append]

/-- The bytes of the first token and of the others add up. -/
@[simp] theorem widthOf_cons (x : Kind × String) (xs : Stored) :
    widthOf (x :: xs) = x.2.utf8ByteSize + widthOf xs := by
  simp [widthOf, String.utf8ByteSize_append]

/-- The tokens with text. -/
def solid (xs : Stored) : Stored := xs.filter (fun x => x.2 != "")

/-- The tokens with text of two rows. -/
@[simp] theorem solid_append (xs ys : Stored) : solid (xs ++ ys) = solid xs ++ solid ys := by
  simp [solid]

/-- Tokens without text add nothing to the text. -/
theorem textOf_solid (xs : Stored) : textOf (solid xs) = textOf xs := by
  induction xs with
  | nil => rfl
  | cons x xs ih =>
      by_cases hx : x.2 = ""
      · simp [solid, hx, ← ih]
      · simp [solid, hx, ← ih]

/-- Tokens without text add no bytes. -/
theorem widthOf_solid (xs : Stored) : widthOf (solid xs) = widthOf xs := by
  rw [widthOf, textOf_solid, widthOf]

/-- Tokens that are the same but for those without text have one text. -/
theorem textOf_congr {xs ys : Stored} (h : solid xs = solid ys) : textOf xs = textOf ys := by
  rw [← textOf_solid xs, h, textOf_solid]

/-- A row without bytes has no token with text. -/
theorem solid_eq_nil {xs : Stored} (h : widthOf xs = 0) : solid xs = [] := by
  induction xs with
  | nil => rfl
  | cons x xs ih =>
      rw [widthOf_cons, Nat.add_eq_zero_iff, String.utf8ByteSize_eq_zero_iff] at h
      simpa [solid, h.1] using ih h.2

/-- A token with text among the tokens with text, and what stands before it in the whole row. -/
theorem exists_split_of_solid {xs before after : Stored} {x : Kind × String}
    (h : solid xs = before ++ x :: after) :
    ∃ front behind, xs = front ++ x :: behind ∧ solid front = before ∧ solid behind = after := by
  obtain ⟨front, others, rfl, hfront, hothers⟩ := List.filter_eq_append_iff.1 h
  obtain ⟨passed, behind, rfl, hpassed, -, hbehind⟩ := List.filter_eq_cons_iff.1 hothers
  refine ⟨front ++ passed, behind, by simp, ?_, hbehind⟩
  rw [solid_append, show solid front = before from hfront,
    show solid passed = [] from List.filter_eq_nil_iff.2 hpassed, List.append_nil]

/-- Where every token has text, none is left out. -/
theorem solid_eq_self {xs : Stored} (h : ∀ x ∈ xs, x.2 ≠ "") : solid xs = xs :=
  List.filter_eq_self.2 fun x hx => by simpa using h x hx

/-- A tree is as wide as its tokens, and so is a row. -/
theorem width_eq : (∀ t : Tree, t.width = widthOf t.tokens) ∧
    ∀ ts, widthAll ts = widthOf (tokensAll ts) := by
  apply induct
  · intro k s
    simp [width, tokens]
  · intro k cs ih
    simpa [width, tokens] using ih
  · rfl
  · intro t ts ht hts
    simp [widthAll, tokensAll, ht, hts]

/-- The widths of two rows add up. -/
theorem widthAll_append (ts us : List Tree) : widthAll (ts ++ us) = widthAll ts + widthAll us := by
  induction ts with
  | nil => simp [widthAll]
  | cons t ts ih => simp [widthAll, ih, Nat.add_assoc]

/-! ## Nodes -/

mutual

/-- Does `P` hold of the kind and the children of every node of a tree? -/
def EveryNode (P : Kind → List Tree → Prop) : Tree → Prop
  | .token .. => True
  | .node k cs => P k cs ∧ EveryNodeAmong P cs

/-- Does `P` hold of every node of the trees? -/
def EveryNodeAmong (P : Kind → List Tree → Prop) : List Tree → Prop
  | [] => True
  | t :: ts => t.EveryNode P ∧ EveryNodeAmong P ts

end

/-- What holds of the nodes of two rows holds of both together. -/
theorem everyNodeAmong_append {P : Kind → List Tree → Prop} {ts us : List Tree} :
    EveryNodeAmong P (ts ++ us) ↔ EveryNodeAmong P ts ∧ EveryNodeAmong P us := by
  induction ts with
  | nil => simp [EveryNodeAmong]
  | cons t ts ih => simp [EveryNodeAmong, ih, and_assoc]

/-- What follows from a property of nodes holds where the property does. -/
theorem everyNode_mono {P Q : Kind → List Tree → Prop} (h : ∀ k cs, P k cs → Q k cs) :
    (∀ t, EveryNode P t → EveryNode Q t) ∧ ∀ ts, EveryNodeAmong P ts → EveryNodeAmong Q ts := by
  apply induct
  · exact fun _ _ => id
  · exact fun k cs ih hnode => ⟨h k cs hnode.1, ih hnode.2⟩
  · exact id
  · exact fun t ts ht hts hrow => ⟨ht hrow.1, hts hrow.2⟩

section Decide

variable (P : Kind → List Tree → Prop) [∀ k cs, Decidable (P k cs)]

mutual

/-- Decides whether `P` holds of every node of a tree. -/
def decideEveryNode : ∀ t : Tree, Decidable (EveryNode P t)
  | .token .. => isTrue trivial
  | .node k cs =>
    have := decideEveryNodeAmong cs
    inferInstanceAs (Decidable (P k cs ∧ EveryNodeAmong P cs))

/-- Decides whether `P` holds of every node of the trees. -/
def decideEveryNodeAmong : ∀ ts : List Tree, Decidable (EveryNodeAmong P ts)
  | [] => isTrue trivial
  | t :: ts =>
    have := decideEveryNode t
    have := decideEveryNodeAmong ts
    inferInstanceAs (Decidable (t.EveryNode P ∧ EveryNodeAmong P ts))

end

instance (t : Tree) : Decidable (EveryNode P t) := decideEveryNode P t

end Decide

/-- The tokens of two rows, one behind the other. -/
theorem tokensAll_append (ts us : List Tree) :
    tokensAll (ts ++ us) = tokensAll ts ++ tokensAll us := by
  induction ts with
  | nil => rfl
  | cons t ts ih => simp [tokensAll, ih]

/-- Leaving out trees leaves out their tokens. -/
theorem tokensAll_sublist {ts us : List Tree} (h : ts.Sublist us) :
    (tokensAll ts).Sublist (tokensAll us) := by
  induction h with
  | slnil => exact List.Sublist.slnil
  | cons t _ ih => exact List.sublist_append_of_sublist_right ih
  | cons_cons t _ ih => exact ih.append_left t.tokens

/-- Some of the trees in a row have no more text than all of them. -/
theorem widthAll_le_of_sublist {ts us : List Tree} (h : ts.Sublist us) :
    widthAll ts ≤ widthAll us := by
  induction h with
  | slnil => exact Nat.le_refl _
  | cons t _ ih => exact Nat.le_trans ih (Nat.le_add_left _ _)
  | cons_cons t _ ih => exact Nat.add_le_add_left ih _

/-- The first stored token, if there is one, is significant. -/
def StartsSignificant (xs : Stored) : Prop :=
  ∀ x ∈ xs.head?, x.1.isTrivia = false

/-- The last stored token, if there is one, is significant. -/
def EndsSignificant (xs : Stored) : Prop :=
  ∀ x ∈ xs.getLast?, x.1.isTrivia = false

/-- A row that is not empty decides how both end. -/
theorem EndsSignificant.append_right {xs ys : Stored} (hne : ys ≠ [])
    (hy : EndsSignificant ys) : EndsSignificant (xs ++ ys) := by
  intro z hz
  have hlast : (xs ++ ys).getLast? = ys.getLast? := by
    rw [List.getLast?_append, List.getLast?_eq_some_getLast hne, Option.some_or]
  exact hy z (hlast ▸ hz)

/-- Two rows that do not end with trivia make one. -/
theorem EndsSignificant.append {xs ys : Stored}
    (hx : EndsSignificant xs) (hy : EndsSignificant ys) : EndsSignificant (xs ++ ys) := by
  by_cases hne : ys = []
  · simpa [hne] using hx
  · exact hy.append_right hne

/-- The row ends with a semicolon or a closing brace. -/
def EndsClosed (xs : Stored) : Prop :=
  ∃ front k text, xs = front ++ [(k, text)] ∧ (k = .semicolon ∨ k = .rBrace)

/-- What ends closed does so behind anything. -/
theorem EndsClosed.append_right {ys : Stored} (h : EndsClosed ys) (xs : Stored) :
    EndsClosed (xs ++ ys) := by
  obtain ⟨front, k, text, rfl, hk⟩ := h
  exact ⟨xs ++ front, k, text, (List.append_assoc ..).symm, hk⟩

/-- A node that does not start with trivia. -/
def FreshNode (_ : Kind) (cs : List Tree) : Prop := StartsSignificant (tokensAll cs)

/-- A node that has a token and does not end with trivia. -/
def FullNode (_ : Kind) (cs : List Tree) : Prop :=
  tokensAll cs ≠ [] ∧ EndsSignificant (tokensAll cs)

end Tree

end CodeMend
