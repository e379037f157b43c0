import CodeMend.Trivia.Ownership

/-!
# Finding nodes from spans

A diagnostic names a span; whoever mends it needs the node it was about.  A span that no longer fits
finds nothing, which is not an error.
-/

namespace CodeMend

/-- Which token wins at the border between two. -/
inductive Bias where
  /-- The token that starts there. -/
  | following
  /-- The token that ends there. -/
  | previous
deriving DecidableEq

namespace Site

/-- The token at an offset, trivia included. -/
def rawTokenAt? (root : Site) (offset : Nat) (bias : Bias) : Option Site :=
  if root.span.touches offset then
    match root.touching offset, bias with
    | [], _ => root.lastToken?
    | t :: ts, .following => (t :: ts).getLast?
    | t :: _, .previous => some t
  else none

/-- The significant token at an offset.  From inside trivia the search goes on to the next
significant token, or back to the previous one. -/
def findToken? (root : Site) (offset : Nat) (bias : Bias) : Option Site := do
  let token ← root.rawTokenAt? offset bias
  if token.isSignificant then some token
  else match bias with
    | .following => token.nextSignificant?
    | .previous => token.prevSignificant?

/-- The significant token that owns a token of trivia. -/
def triviaOwner? (s : Site) : Option Site :=
  match s.prevSignificant? with
  | some p => if p.trailingSpan.covers s.span then some p else s.nextSignificant?
  | none => s.nextSignificant?

/-- The innermost node above a token that `accepts` it. -/
def enclosing? (s : Site) (accepts : Site → Bool) : Option Site :=
  s.properAncestors.find? accepts

/-- The deepest node whose span covers the given one; with `trivia`, whose full span does. -/
def findNode? (root : Site) (span : Span) (bias : Bias) (trivia : Bool) : Option Site :=
  if !root.span.covers span then none
  else if trivia then do
    let token ←
      if span.isEmpty then root.rawTokenAt? span.start bias
      else
        let cover := root.covering span
        if cover.isToken then some cover else root.rawTokenAt? span.start .following
    let owner ← if token.isTrivia then token.triviaOwner? else some token
    owner.enclosing? (fun n => n.fullSpan.covers span)
  else if span.isEmpty then do
    (← root.rawTokenAt? span.start bias).enclosing? (fun n => n.span.covers span)
  else
    let cover := root.covering span
    if cover.isToken then cover.enclosing? (fun n => n.span.covers span) else some cover

/-- The innermost node around a span that `accepts` takes. -/
def findAround? (root : Site) (span : Span) (bias : Bias) (trivia : Bool) (accepts : Site → Bool) :
    Option Site := do
  (← root.findNode? span bias trivia).ancestors.find? accepts

end Site

/-- What is often looked for around a span. -/
inductive Surrounding where
  /-- A type with a body of members; enumerations are not among them. -/
  | typeWithMembers
  | block
  | switchSection
deriving DecidableEq

namespace Surrounding

/-- What a word asks for. -/
def ofLabel? : String → Option Surrounding
  | "TypeDeclaration" => some .typeWithMembers
  | "Block" => some .block
  | "SwitchSection" => some .switchSection
  | _ => none

/-- Is it a node of the kind? -/
def accepts : Surrounding → Kind → Bool
  | .typeWithMembers, k => k.isTypeDeclaration && k != .enumDeclaration
  | .block, k => k == .block
  | .switchSection, k => k == .switchSection

end Surrounding

end CodeMend
