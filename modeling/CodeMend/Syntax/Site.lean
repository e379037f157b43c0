import CodeMend.Syntax.Tree
import CodeMend.Text.Span

/-!
# Places in a tree

A `Site` is a subtree together with its place: the offset where it starts and the frames above it,
innermost first.  A frame keeps the siblings to the left and to the right, so parents and neighbours
are found without searching, and the whole tree can be rebuilt from any of its sites.

The *leaves* of a tree are its tokens and its nodes without children.  Walks along the text step
from leaf to leaf, and a walk that wants tokens ends where it meets an empty node.
-/

namespace CodeMend

/-- A node as seen from one of its children. -/
structure Frame where
  kind : Kind
  /-- Where the node starts. -/
  start : Nat
  /-- The siblings to the left, nearest first. -/
  before : List Tree
  /-- The siblings to the right, nearest first. -/
  after : List Tree

/-- A subtree and its place. -/
structure Site where
  tree : Tree
  /-- Where the subtree starts. -/
  start : Nat
  /-- The nodes above, innermost first. -/
  above : List Frame
  /-- The stamp of the tree in which the site lies. -/
  origin : Nat
deriving Inhabited

namespace Site

/-- The site of a whole tree. -/
def top (origin : Nat) (tree : Tree) : Site := ⟨tree, 0, [], origin⟩

/-- The kind of the token or node. -/
def kind (s : Site) : Kind := s.tree.kind

/-- Is it a token? -/
def isToken (s : Site) : Bool := s.tree.isToken

/-- Is it a node? -/
def isNode (s : Site) : Bool := s.tree.isNode

/-- Is it a token of trivia? -/
def isTrivia (s : Site) : Bool := s.tree.isTrivia

/-- The text below the site. -/
def text (s : Site) : String := s.tree.text

/-- The span of the text. -/
def span (s : Site) : Span := .ofLength s.start s.tree.width

/-- Where the text ends. -/
def stop (s : Site) : Nat := s.span.stop

/-- For each node above, innermost first, how many siblings stand to the left. -/
def path (s : Site) : List Nat := s.above.map (·.before.length)

/-- Are both the same place of the same tree? -/
def same (a b : Site) : Bool := a.origin == b.origin && a.start == b.start && a.path == b.path

/-! ## Up and down -/

/-- The tree of a frame's node, given the child in the gap. -/
def Frame.close (f : Frame) (child : Tree) : Tree :=
  .node f.kind (f.before.reverse ++ child :: f.after)

/-- The node right above. -/
def parent? (s : Site) : Option Site :=
  match s.above with
  | [] => none
  | f :: fs => some ⟨Frame.close f s.tree, f.start, fs, s.origin⟩

/-- The sites above a tree, innermost first. -/
def climb (origin : Nat) : Tree → List Frame → List Site
  | _, [] => []
  | t, f :: fs =>
    let parent := Frame.close f t
    ⟨parent, f.start, fs, origin⟩ :: climb origin parent fs

/-- The sites above, innermost first, without the site itself. -/
def properAncestors (s : Site) : List Site := climb s.origin s.tree s.above

/-- The site itself and those above it, innermost first. -/
def ancestors (s : Site) : List Site := s :: s.properAncestors

/-- The whole tree. -/
def root (s : Site) : Site := (s.ancestors.getLast?).getD s

/-- Trees side by side under one node, from the left; `before` are those further left. -/
def row (origin : Nat) (kind : Kind) (start : Nat) (above : List Frame) :
    Nat → List Tree → List Tree → List Site
  | _, _, [] => []
  | here, before, t :: ts =>
    ⟨t, here, ⟨kind, start, before, ts⟩ :: above, origin⟩
      :: row origin kind start above (here + t.width) (t :: before) ts

/-- The children, tokens included. -/
def children (s : Site) : List Site := row s.origin s.kind s.start s.above s.start [] s.tree.children

/-- The tree of each site of a row is one of the trees in it. -/
theorem tree_mem_of_mem_row {origin : Nat} {kind : Kind} {start : Nat} {above : List Frame}
    {here : Nat} {before ts : List Tree} {c : Site}
    (h : c ∈ row origin kind start above here before ts) : c.tree ∈ ts := by
  induction ts generalizing here before with
  | nil => simp [row] at h
  | cons t ts ih =>
    rcases List.mem_cons.1 (by simpa only [row] using h) with rfl | h
    · exact List.mem_cons_self
    · exact List.mem_cons_of_mem _ (ih h)

/-- A child is smaller than its node. -/
theorem sizeOf_tree_lt_of_mem_children {s c : Site} (h : c ∈ s.children) :
    sizeOf c.tree < sizeOf s.tree := by
  have hc : c.tree ∈ s.tree.children := tree_mem_of_mem_row h
  cases ht : s.tree with
  | token k text => simp [ht, Tree.children] at hc
  | node k cs =>
    rw [ht] at hc
    have := List.sizeOf_lt_of_mem (show c.tree ∈ cs from hc)
    simp only [Tree.node.sizeOf_spec]
    omega

/-- The children that are nodes. -/
def nodes (s : Site) : List Site := s.children.filter isNode

/-- The children that are tokens. -/
def tokens (s : Site) : List Site := s.children.filter isToken

/-- The siblings to the left, nearest first. -/
def leftSiblings (s : Site) : List Site :=
  match s.parent? with
  | none => []
  | some p => (p.children.takeWhile (fun t => !t.same s)).reverse

/-- The siblings to the right, nearest first. -/
def rightSiblings (s : Site) : List Site :=
  match s.parent? with
  | none => []
  | some p => (p.children.dropWhile (fun t => !t.same s)).drop 1

/-- The nearest node among the siblings to the left. -/
def prevNode? (s : Site) : Option Site := s.leftSiblings.find? isNode

/-- The nearest node among the siblings to the right. -/
def nextNode? (s : Site) : Option Site := s.rightSiblings.find? isNode

mutual

/-- All sites of a subtree in preorder. -/
def subtreeOf (origin : Nat) (here : Nat) (above : List Frame) : Tree → List Site
  | .token k text => [⟨.token k text, here, above, origin⟩]
  | .node k cs => ⟨.node k cs, here, above, origin⟩ :: subtreesOf origin k here above here [] cs

/-- All sites of trees side by side, in preorder. -/
def subtreesOf (origin : Nat) (kind : Kind) (start : Nat) (above : List Frame)
    (here : Nat) (before : List Tree) : List Tree → List Site
  | [] => []
  | t :: ts =>
    subtreeOf origin here (⟨kind, start, before, ts⟩ :: above) t
      ++ subtreesOf origin kind start above (here + t.width) (t :: before) ts

end

/-- The site and all sites below it in preorder. -/
def subtree (s : Site) : List Site := subtreeOf s.origin s.start s.above s.tree

/-- The nodes among the site and the sites below it, in preorder. -/
def subnodes (s : Site) : List Site := s.subtree.filter isNode

/-- The tokens among the site and the sites below it, in the order of the text. -/
def subtokens (s : Site) : List Site := s.subtree.filter isToken

/-! ## Along the text -/

/-- A token, or a node without children. -/
def isLeaf (s : Site) : Bool := s.tree.children.isEmpty

/-- The leaves below the site, or the site itself. -/
def leaves (s : Site) : List Site := s.subtree.filter isLeaf

/-- The leaves to the right of a tree, nearest first. -/
def leavesAfter (origin : Nat) : Tree → Nat → List Frame → List Site
  | _, _, [] => []
  | t, here, f :: fs =>
    (subtreesOf origin f.kind f.start fs (here + t.width) (t :: f.before) f.after).filter isLeaf
      ++ leavesAfter origin (Frame.close f t) f.start fs

/-- The leaves to the left of a tree, in the order of the text. -/
def leavesBefore (origin : Nat) : Tree → List Frame → List Site
  | _, [] => []
  | t, f :: fs =>
    leavesBefore origin (Frame.close f t) fs
      ++ ((row origin f.kind f.start fs f.start [] (f.before.reverse ++ t :: f.after)).take
            f.before.length).flatMap leaves

/-- The leaves to the right, nearest first. -/
def following (s : Site) : List Site := leavesAfter s.origin s.tree s.start s.above

/-- The leaves to the left, nearest first. -/
def preceding (s : Site) : List Site := (leavesBefore s.origin s.tree s.above).reverse

/-- The tokens to the right, up to the next empty node. -/
def tokensAfter (s : Site) : List Site := s.following.takeWhile isToken

/-- The tokens to the left, nearest first, up to the next empty node. -/
def tokensBefore (s : Site) : List Site := s.preceding.takeWhile isToken

/-- The token that follows. -/
def nextToken? (s : Site) : Option Site := s.tokensAfter.head?

/-- The token before. -/
def prevToken? (s : Site) : Option Site := s.tokensBefore.head?

/-- The first leaf, if it is a token. -/
def firstToken? (s : Site) : Option Site := s.leaves.head?.filter isToken

/-- The last leaf, if it is a token. -/
def lastToken? (s : Site) : Option Site := s.leaves.getLast?.filter isToken

/-- The tokens with text that reach `offset`: none if the text is empty, else one or two. -/
def touching (s : Site) (offset : Nat) : List Site :=
  s.subtokens.filter (fun t => !t.span.isEmpty && t.span.touches offset)

mutual

/-- The deepest site of a subtree that covers the span, which the subtree itself covers. -/
def coverIn (origin : Nat) (span : Span) (here : Nat) (above : List Frame) : Tree → Site
  | .token k text => ⟨.token k text, here, above, origin⟩
  | .node k cs => (coverAmong origin span k here above here [] cs).getD ⟨.node k cs, here, above, origin⟩

/-- The deepest site that covers the span, in the first of the trees side by side that does. -/
def coverAmong (origin : Nat) (span : Span) (kind : Kind) (start : Nat) (above : List Frame)
    (here : Nat) (before : List Tree) : List Tree → Option Site
  | [] => none
  | t :: ts =>
    if (Span.ofLength here t.width).covers span then
      some (coverIn origin span here (⟨kind, start, before, ts⟩ :: above) t)
    else coverAmong origin span kind start above (here + t.width) (t :: before) ts

end

/-- The deepest site below `s`, or `s` itself, that covers the span. -/
def covering (s : Site) (span : Span) : Site := coverIn s.origin span s.start s.above s.tree

end Site

end CodeMend
