import CodeMend.Proofs.Lexer.Spelling
import CodeMend.Proofs.Parser.Binding
import CodeMend.Proofs.Parser.Reading

/-!
# Expressions and how they are written

An `Expression` is written with one blank between any two words (`Expression.text`), and with
parentheses where the place of an operand asks for something that binds more tightly than the operand
does (`Expression.wordsIn`).  `Expression.tree` is the tree of an expression, with a given `gap`
between the parts: without a gap it is the shape of the expression, and with a blank it is the tree of
its text.
-/

namespace CodeMend

open Tree Lexer

/-! ## Words -/

/-- A text that is one token of kind `k`. -/
structure Word (k : Kind) where
  text : String
  spelled : Spelled k text

/-- How punctuation is written. -/
def mark (k : Kind) : String :=
  ((punctuation.find? (·.2 == k)).map fun p => String.ofList p.1).getD ""

/-- The kinds of the operators before an operand. -/
def signs : List Kind := [.bang, .minus, .plus, .tilde]

/-- An operator before an operand. -/
structure Sign where
  kind : Kind
  mem : kind ∈ signs

/-- A binary operator other than `is` and `as`. -/
inductive Operator where
  | mark (k : Kind) (binds : (Parse.precedence? k).isSome = true) (plain : k ≠ .isKw ∧ k ≠ .asKw)
  /-- Two `>` with nothing between them. -/
  | shift

namespace Operator

/-- The kind of the first token. -/
def kind : Operator → Kind
  | mark k _ _ => k
  | shift => .gt

/-- The tokens. -/
def tokens : Operator → Stored
  | mark k _ _ => [(k, CodeMend.mark k)]
  | shift => [(.gt, ">"), (.gt, ">")]

/-- How it is written. -/
def text (o : Operator) : String := textOf o.tokens

/-- How tightly it binds. -/
def precedence : Operator → Nat
  | mark k binds _ => (Parse.precedence? k).get binds
  | shift => Parse.shiftPrecedence

/-- Does it group to the right?  Only `??` does. -/
def groupsRight (o : Operator) : Bool := o.kind == .questionQuestion

/-- How tightly the left operand has to bind. -/
def left (o : Operator) : Nat := if o.groupsRight then o.precedence + 1 else o.precedence

/-- How tightly the right operand has to bind. -/
def right (o : Operator) : Nat := if o.groupsRight then o.precedence else o.precedence + 1

end Operator

/-- The brackets around arguments. -/
inductive Brackets where
  | round
  | square

namespace Brackets

/-- The kind of the opening bracket. -/
def opening : Brackets → Kind
  | round => .lParen
  | square => .lBracket

/-- The kind of the closing bracket. -/
def closing : Brackets → Kind
  | round => .rParen
  | square => .rBracket

/-- The node over the brackets and what is between them. -/
def list : Brackets → Kind
  | round => .argumentList
  | square => .bracketedArgumentList

/-- The node over what the arguments belong to, and the arguments. -/
def whole : Brackets → Kind
  | round => .invocationExpression
  | square => .elementAccessExpression

end Brackets

/-! ## Expressions -/

/-- An expression. -/
inductive Expression where
  | literal {k : Kind} (hk : k = .intLiteral ∨ k = .stringLiteral) (w : Word k)
  | name (w : Word .ident)
  | paren (e : Expression)
  | signed (o : Sign) (e : Expression)
  | member (e : Expression) (name : Word .ident)
  /-- A call or an access to an element. -/
  | applied (b : Brackets) (e : Expression) (arguments : List Expression)
  | binary (o : Operator) (l r : Expression)

namespace Expression

/-- How tightly an operand of a sign binds. -/
def signLevel : Nat := 12

/-- How tightly that binds to which a member, arguments or an index belong. -/
def suffixLevel : Nat := 13

/-- How tightly an expression binds. -/
def strength : Expression → Nat
  | binary o _ _ => o.precedence
  | signed _ _ => signLevel
  | _ => suffixLevel

/-- The words `ws` of `e` in a place for what binds at least as tightly as `level`. -/
def wordsIn (level : Nat) (e : Expression) (ws : List String) : List String :=
  if e.strength < level then "(" :: (ws ++ [")"]) else ws

mutual

/-- The words of an expression. -/
def words : Expression → List String
  | literal _ w => [w.text]
  | name w => [w.text]
  | paren e => "(" :: (e.words ++ [")"])
  | signed o e => mark o.kind :: wordsIn signLevel e e.words
  | member e n => wordsIn suffixLevel e e.words ++ [".", n.text]
  | applied b e es =>
    wordsIn suffixLevel e e.words ++ mark b.opening :: (wordsAll es ++ [mark b.closing])
  | binary o l r => wordsIn o.left l l.words ++ o.text :: wordsIn o.right r r.words

/-- The words of arguments. -/
def wordsAll : List Expression → List String
  | [] => []
  | [e] => e.words
  | e :: f :: es => e.words ++ "," :: wordsAll (f :: es)

end

/-- An expression as a text. -/
def text (e : Expression) : String := " ".intercalate e.words

/-- A tree in parentheses. -/
def enclosed (gap : List Tree) (t : Tree) : Tree :=
  .node .parenthesizedExpression
    (.token .lParen "(" :: (gap ++ t :: (gap ++ [.token .rParen ")"])))

/-- The tree `t` of `e` in a place for what binds at least as tightly as `level`. -/
def treeIn (gap : List Tree) (level : Nat) (e : Expression) (t : Tree) : Tree :=
  if e.strength < level then enclosed gap t else t

mutual

/-- The tree of an expression, with `gap` between its parts. -/
def tree (gap : List Tree) : Expression → Tree
  | @literal k _ w => .node .literalExpression [.token k w.text]
  | name w => .node .identifierName [.token .ident w.text]
  | paren e => enclosed gap (e.tree gap)
  | signed o e =>
    .node .prefixUnaryExpression
      (.token o.kind (mark o.kind) :: (gap ++ [treeIn gap signLevel e (e.tree gap)]))
  | member e n =>
    .node .memberAccessExpression
      (treeIn gap suffixLevel e (e.tree gap) ::
        (gap ++ .token .dot "." :: (gap ++ [.node .identifierName [.token .ident n.text]])))
  | applied b e es =>
    .node b.whole
      (treeIn gap suffixLevel e (e.tree gap) ::
        (gap ++ [.node b.list (.token b.opening (mark b.opening) ::
          (treeAll gap es ++ (gap ++ [.token b.closing (mark b.closing)])))]))
  | binary o l r =>
    .node .binaryExpression
      (treeIn gap o.left l (l.tree gap) ::
        (gap ++ (Parse.leaves o.tokens ++ (gap ++ [treeIn gap o.right r (r.tree gap)]))))

/-- The trees of arguments, each behind a gap, with commas between them. -/
def treeAll (gap : List Tree) : List Expression → List Tree
  | [] => []
  | [e] => gap ++ [.node .argument [e.tree gap]]
  | e :: f :: es =>
    gap ++ .node .argument [e.tree gap] :: (gap ++ .token .comma "," :: treeAll gap (f :: es))

end

/-- The shape of an expression: its tree without anything between the parts. -/
def shape (e : Expression) : Tree := e.tree []

/-- Induction on expressions, arguments included. -/
theorem induct {P : Expression → Prop}
    (literal : ∀ {k : Kind} (hk : k = .intLiteral ∨ k = .stringLiteral) (w : Word k), P (.literal hk w))
    (name : ∀ w, P (.name w)) (paren : ∀ e, P e → P (.paren e))
    (signed : ∀ o e, P e → P (.signed o e)) (member : ∀ e n, P e → P (.member e n))
    (applied : ∀ b e es, P e → (∀ a ∈ es, P a) → P (.applied b e es))
    (binary : ∀ o l r, P l → P r → P (.binary o l r)) (e : Expression) : P e :=
  @Expression.rec P (fun es => ∀ a ∈ es, P a)
    (fun hk w => literal hk w) name paren signed member applied binary
    (fun _ h => absurd h List.not_mem_nil)
    (fun _ _ hhead htail => List.forall_mem_cons.2 ⟨hhead, htail⟩) e

/-! ## The gaps -/

theorem bareAll_cons {t : Tree} (h : t.isTrivia = false) (ts : List Tree) :
    bareAll (t :: ts) = t.bare :: bareAll ts := by
  simp [bareAll, h]

theorem bareAll_token {k : Kind} (hk : k.isTrivia = false) (s : String) (ts : List Tree) :
    bareAll (.token k s :: ts) = .token k s :: bareAll ts := bareAll_cons (t := .token k s) hk ts

theorem isTrivia_tree (gap : List Tree) (e : Expression) : (e.tree gap).isTrivia = false := by
  cases e <;> rfl

theorem isTrivia_treeIn (gap : List Tree) (level : Nat) (e : Expression) :
    (treeIn gap level e (e.tree gap)).isTrivia = false := by
  unfold treeIn
  split
  · rfl
  · exact isTrivia_tree gap e

theorem isTrivia_sign (o : Sign) : o.kind.isTrivia = false := by
  have hsigns : ∀ k ∈ signs, k.isTrivia = false := by decide
  exact hsigns o.kind o.mem

theorem bareAll_operator (o : Operator) (ts : List Tree) :
    bareAll (Parse.leaves o.tokens ++ ts) = Parse.leaves o.tokens ++ bareAll ts := by
  cases o with
  | mark k binds plain =>
      obtain ⟨p, hp⟩ := Option.isSome_iff_exists.1 binds
      exact bareAll_token (Parse.precedence_significant hp) _ _
  | shift => rfl

section Gap

variable {gap : List Tree} (hgap : ∀ t ∈ gap, t.isTrivia = true)

include hgap

theorem bareAll_gap (ts : List Tree) : bareAll (gap ++ ts) = bareAll ts := by
  rw [bareAll_append, bareAll_eq_nil hgap, List.nil_append]

theorem bare_enclosed {t : Tree} (ht : t.isTrivia = false) :
    (enclosed gap t).bare = enclosed [] t.bare := by
  rw [enclosed, bare, bareAll_token rfl, bareAll_gap hgap, bareAll_cons ht, bareAll_gap hgap]
  rfl

theorem bare_treeIn {level : Nat} {e : Expression} (h : (e.tree gap).bare = e.shape) :
    (treeIn gap level e (e.tree gap)).bare = treeIn [] level e e.shape := by
  unfold treeIn
  split
  · rw [bare_enclosed hgap (isTrivia_tree gap e), h]
  · exact h

/-- Arguments without the gaps between them are the arguments of the shape. -/
theorem bareAll_treeAll {es : List Expression} (h : ∀ e ∈ es, (e.tree gap).bare = e.shape)
    (ts : List Tree) : bareAll (treeAll gap es ++ ts) = treeAll [] es ++ bareAll ts := by
  induction es with
  | nil => rfl
  | cons e es ih =>
      obtain ⟨he, hes⟩ := List.forall_mem_cons.1 h
      have hargument (us : List Tree) : bareAll (.node .argument [e.tree gap] :: us) =
          .node .argument [e.shape] :: bareAll us := by
        rw [bareAll_cons rfl, bare, bareAll_cons (isTrivia_tree gap e), he]
        rfl
      cases es with
      | nil =>
          rw [treeAll, List.append_assoc, bareAll_gap hgap]
          exact hargument ts
      | cons f es =>
          rw [treeAll, List.append_assoc, bareAll_gap hgap, List.cons_append, hargument,
            List.append_assoc, bareAll_gap hgap, List.cons_append, bareAll_token rfl, ih hes]
          rfl

/-- Without the gaps, the tree is the shape. -/
theorem bare_tree (e : Expression) : (e.tree gap).bare = e.shape := by
  induction e using induct with
  | literal hk w => 
      rcases hk with rfl | rfl <;> rfl
  | name w => rfl
  | paren e ih => rw [tree, bare_enclosed hgap (isTrivia_tree gap e), ih]; rfl
  | signed o e ih =>
      rw [tree, bare, bareAll_token (isTrivia_sign o), bareAll_gap hgap,
        bareAll_cons (isTrivia_treeIn gap _ e), bare_treeIn hgap ih]
      rfl
  | member e n ih =>
      rw [tree, bare, bareAll_cons (isTrivia_treeIn gap _ e), bare_treeIn hgap ih, bareAll_gap hgap,
        bareAll_token rfl, bareAll_gap hgap]
      rfl
  | applied b e es ih ihs =>
      rw [tree, bare, bareAll_cons (isTrivia_treeIn gap _ e), bare_treeIn hgap ih, bareAll_gap hgap,
        bareAll_cons rfl, bare]
      have hopening : b.opening.isTrivia = false := by cases b <;> rfl
      have hclosing : b.closing.isTrivia = false := by cases b <;> rfl
      rw [bareAll_token hopening, bareAll_treeAll hgap ihs, bareAll_gap hgap, bareAll_token hclosing]
      rfl
  | binary o l r ihl ihr =>
      rw [tree, bare, bareAll_cons (isTrivia_treeIn gap _ l), bare_treeIn hgap ihl, bareAll_gap hgap,
        bareAll_operator, bareAll_gap hgap, bareAll_cons (isTrivia_treeIn gap _ r),
        bare_treeIn hgap ihr]
      rfl

end Gap

end Expression

end CodeMend
