import CodeMend.Edit.Refusal
import CodeMend.Syntax.Tree

/-!
# Splices

A splice puts new content in the place of a span of the text.  In the tree it goes down to the node
whose children the span covers, and swaps those children for the new content; nothing else changes.
A span may end inside child nodes, which are then cut as well; one that cuts a token is refused.
-/

namespace CodeMend

/-- What a mark asks of later passes. -/
inductive Mark where
  /-- Lines that start inside are to be indented anew. -/
  | formatter
  /-- A new identifier that someone will want to rename. -/
  | renameTarget
deriving DecidableEq

namespace Mark

/-- The word for a mark. -/
def label : Mark → String
  | .formatter => "Formatter"
  | .renameTarget => "RenameTarget"

/-- The mark of a word. -/
def ofLabel? (word : String) : Option Mark :=
  [formatter, renameTarget].find? (·.label == word)

end Mark

/-- A marked span: inside a replacement before it is applied, of the new text afterwards. -/
structure Annotation where
  mark : Mark
  span : Span
deriving DecidableEq

/-- The annotation moved `n` bytes to the right. -/
def Annotation.shift (a : Annotation) (n : Nat) : Annotation := ⟨a.mark, a.span.shift n⟩

/-- New content and what is marked in it. -/
structure Replacement where
  elements : List Tree
  annotations : List Annotation := []

namespace Replacement

/-- Nothing: the splice deletes. -/
def empty : Replacement := ⟨[], []⟩

/-- The number of bytes of the new content. -/
def length (r : Replacement) : Nat := Tree.widthAll r.elements

/-- The text of the new content. -/
def text (r : Replacement) : String := Tree.textAll r.elements

/-- Marks a span of the new content. -/
def annotate (r : Replacement) (mark : Mark) (span : Span) : Replacement :=
  { r with annotations := r.annotations ++ [⟨mark, span⟩] }

/-- Marks all of the new content for indentation. -/
def formatted (r : Replacement) : Replacement := r.annotate .formatter ⟨0, r.length⟩

/-- Elements in a row, those with a mark marked for indentation. -/
def ofPieces (pieces : List (Tree × Bool)) : Replacement :=
  let starts := pieces.foldl (fun (acc : Nat × List Annotation) p =>
    let stop := acc.1 + p.1.width
    (stop, if p.2 then acc.2 ++ [⟨.formatter, acc.1, stop⟩] else acc.2)) (0, [])
  ⟨pieces.map Prod.fst, starts.2⟩

end Replacement

/-- One change: the text of `span` becomes `replacement`. -/
structure Splice where
  span : Span
  /-- The kind of the node being replaced, which tells nested nodes with the same span apart. -/
  target : Option Kind
  replacement : Replacement

namespace Splice

/-- Deletes a span. -/
def delete (span : Span) : Splice := ⟨span, none, .empty⟩

/-- Inserts at an offset. -/
def insert (offset : Nat) (r : Replacement) : Splice := ⟨.point offset, none, r⟩

/-- By how much the splice lengthens the text. -/
def growth (s : Splice) : Int := (s.replacement.length : Int) - (s.span.length : Int)

end Splice

namespace Tree

mutual

/-- Puts trees at a point of a tree that starts at `here`.  On a border between children they go
before the child that starts there, as high up as possible. -/
def insertIn (here point : Nat) (new : List Tree) : Tree → Except EditError Tree
  | .token .. => .error (.misaligned (.point point))
  | .node k cs => (Tree.node k ·) <$> insertAmong here point new cs

/-- Puts trees at a point of a row of trees that starts at `here`. -/
def insertAmong (here point : Nat) (new : List Tree) : List Tree → Except EditError (List Tree)
  | [] => .ok new
  | t :: ts =>
    if point ≤ here then .ok (new ++ t :: ts)
    else if point < here + t.width then (· :: ts) <$> insertIn here point new t
    else (t :: ·) <$> insertAmong (here + t.width) point new ts

end

mutual

/-- Is there a node of kind `k` below that has the whole text of this one? -/
def wraps (k : Kind) : Tree → Bool
  | .token .. => false
  | .node _ cs => wrapsAmong k (widthAll cs) cs

/-- Does one of the trees have the given width and is, or wraps, a node of kind `k`? -/
def wrapsAmong (k : Kind) (width : Nat) : List Tree → Bool
  | [] => false
  | t :: ts => (t.isNode && t.width == width && (t.kind == k || wraps k t)) || wrapsAmong k width ts

end

/-- Should a splice for a node of kind `target` go further down into a tree with the same span? -/
def descends (target : Option Kind) (t : Tree) : Bool :=
  t.isNode && target.any (fun k => k != t.kind && t.wraps k)

mutual

/-- Replaces `cut` in a tree that starts at `here`; `whole` is the span to complain about if the tree
is a token and cannot be cut. -/
def replaceIn (here : Nat) (whole cut : Span) (target : Option Kind) (new : List Tree) :
    Tree → Except EditError Tree
  | .token .. => .error (.misaligned whole)
  | .node k cs => (Tree.node k ·) <$> replaceAmong here cut target (some new) cs

/-- Replaces `cut`, which is not empty, in a row of trees that starts at `here`.  The new trees go
where the first of the cut text was; `none` says that they have a place already. -/
def replaceAmong (here : Nat) (cut : Span) (target : Option Kind) (new : Option (List Tree)) :
    List Tree → Except EditError (List Tree)
  | [] => if new.isSome then .error (.misaligned cut) else .ok []
  | t :: ts =>
    let there := here + t.width
    if there ≤ cut.start then (t :: ·) <$> replaceAmong there cut target new ts
    else if cut.stop ≤ here then if new.isSome then .error (.misaligned cut) else .ok (t :: ts)
    else if here < cut.start then
      if cut.stop < there then (· :: ts) <$> replaceIn here cut cut target (new.getD []) t
      else do
        let rest ← replaceAmong there cut none none ts
        let t ← replaceIn here cut ⟨cut.start, there⟩ target (new.getD []) t
        .ok (t :: rest)
    else if there ≤ cut.stop then
      if Span.mk here there == cut && descends target t then
        (· :: ts) <$> replaceIn here cut cut target (new.getD []) t
      else (new.getD [] ++ ·) <$> replaceAmong there cut none none ts
    else (· :: ts) <$> replaceIn here cut ⟨here, cut.stop⟩ target (new.getD []) t

end

/-- The tree after one splice. -/
def splice (t : Tree) (s : Splice) : Except EditError Tree :=
  if s.span.isEmpty then t.insertIn 0 s.span.start s.replacement.elements
  else t.replaceIn 0 s.span s.span s.target s.replacement.elements

end Tree

end CodeMend
