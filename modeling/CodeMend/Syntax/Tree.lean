import CodeMend.Syntax.Kind

/-!
# Syntax trees

A tree is a token or a node with its children.  It stores no offsets: a place in a tree is the
business of `Site`.  Trivia are tokens like any other, so `Tree.text` gives back the source.
-/

namespace CodeMend

/-- A token, or a node over its children. -/
inductive Tree where
  | token (kind : Kind) (text : String)
  | node (kind : Kind) (children : List Tree)
deriving Inhabited

namespace Tree

/-- The kind of a token or node. -/
def kind : Tree → Kind
  | token k _ => k
  | node k _ => k

/-- The children; a token has none. -/
def children : Tree → List Tree
  | token .. => []
  | node _ cs => cs

/-- Is it a token? -/
def isToken : Tree → Bool
  | token .. => true
  | node .. => false

/-- Is it a node? -/
def isNode (t : Tree) : Bool := !t.isToken

/-- Is it a trivia token? -/
def isTrivia : Tree → Bool
  | token k _ => k.isTrivia
  | node .. => false

/-- A node of the given kind? -/
def isNodeOf (k : Kind) : Tree → Bool
  | token .. => false
  | node l _ => k == l

/-- A token of the given kind? -/
def isTokenOf (k : Kind) : Tree → Bool
  | token l _ => k == l
  | node .. => false

mutual

/-- The number of bytes of the text. -/
def width : Tree → Nat
  | token _ s => s.utf8ByteSize
  | node _ cs => widthAll cs

/-- The number of bytes of the texts together. -/
def widthAll : List Tree → Nat
  | [] => 0
  | t :: ts => t.width + widthAll ts

end

mutual

/-- The tokens from left to right, with their kinds. -/
def tokens : Tree → List (Kind × String)
  | token k s => [(k, s)]
  | node _ cs => tokensAll cs

/-- The tokens of all trees from left to right. -/
def tokensAll : List Tree → List (Kind × String)
  | [] => []
  | t :: ts => t.tokens ++ tokensAll ts

end

/-- The text: that of the tokens, joined. -/
def text (t : Tree) : String := String.join (t.tokens.map Prod.snd)

/-- The text of several trees in a row. -/
def textAll (ts : List Tree) : String := String.join ((tokensAll ts).map Prod.snd)

mutual

/-- Decides whether two trees are the same. -/
def same : Tree → Tree → Bool
  | token k s, token l t => k == l && s == t
  | node k cs, node l ds => k == l && sameAll cs ds
  | _, _ => false

/-- Decides whether two lists of trees are the same. -/
def sameAll : List Tree → List Tree → Bool
  | [], [] => true
  | c :: cs, d :: ds => same c d && sameAll cs ds
  | _, _ => false

end

end Tree

end CodeMend
