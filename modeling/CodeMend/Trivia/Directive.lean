import CodeMend.Text.Order
import CodeMend.Trivia.Ownership

/-!
# Directives and their balance

Conditional directives and regions come in pairs that nest.  `Directive.found` runs over a sequence
of directives with a stack of open frames and collects the positions of those without a partner;
it knows nothing of trees.  They are found in an order of their own, the openings last, so the items
at these positions are sorted by where they start.  A node may only be removed or replaced as a whole
if nothing in its full span is unbalanced.
-/

namespace CodeMend

/-- What a preprocessor directive does. -/
inductive Directive where
  | ifOpen
  | elifBranch
  | elseBranch
  | ifClose
  | regionOpen
  | regionClose
  /-- Never paired. -/
  | other
deriving DecidableEq

namespace Directive

/-- The word for a directive. -/
def label : Directive → String
  | .ifOpen => "If"
  | .elifBranch => "Elif"
  | .elseBranch => "Else"
  | .ifClose => "EndIf"
  | .regionOpen => "Region"
  | .regionClose => "EndRegion"
  | .other => "Other"

/-- The directive that a token of the given kind is. -/
def ofKind? : Kind → Option Directive
  | .ifDirective => some .ifOpen
  | .elifDirective => some .elifBranch
  | .elseDirective => some .elseBranch
  | .endIfDirective => some .ifClose
  | .regionDirective => some .regionOpen
  | .endRegionDirective => some .regionClose
  | .otherDirective => some .other
  | _ => none

/-- Does the directive need a partner? -/
def isPaired (d : Directive) : Bool := d != .other

/-- What an open frame waits for. -/
inductive Pairing where
  | conditional
  | region
deriving DecidableEq

/-- A pair that is open: the positions of the opening directive and of the branches so far, the last
one first. -/
structure Open where
  pairing : Pairing
  positions : List Nat

/-- Open frames, innermost first, and the positions found without a partner, the last one first. -/
structure Scan where
  frames : List Open
  loose : List Nat

/-- Closes the innermost frame if it is of the given pairing. -/
def Scan.close (p : Pairing) (position : Nat) (s : Scan) : Scan :=
  match s.frames with
  | f :: fs => if f.pairing == p then { s with frames := fs } else { s with loose := position :: s.loose }
  | [] => { s with loose := position :: s.loose }

/-- Takes in the directive at a position. -/
def Scan.step (s : Scan) (d : Directive) (position : Nat) : Scan :=
  match d with
  | .ifOpen => { s with frames := ⟨.conditional, [position]⟩ :: s.frames }
  | .regionOpen => { s with frames := ⟨.region, [position]⟩ :: s.frames }
  | .elifBranch | .elseBranch =>
    match s.frames with
    | f :: fs =>
      if f.pairing == .conditional then
        { s with frames := { f with positions := position :: f.positions } :: fs }
      else { s with loose := position :: s.loose }
    | [] => { s with loose := position :: s.loose }
  | .ifClose => s.close .conditional position
  | .regionClose => s.close .region position
  | .other => s

/-- Takes in directives from a position on. -/
def Scan.run (s : Scan) : Nat → List Directive → Scan
  | _, [] => s
  | position, d :: ds => (s.step d position).run (position + 1) ds

/-- The positions without a partner: those found so on the way, then those of the frames left open,
the outermost first. -/
def Scan.found (s : Scan) : List Nat :=
  s.loose.reverse ++ s.frames.reverse.flatMap (fun f => f.positions.reverse)

/-- The positions without a partner, in the order in which they are found. -/
def found (ds : List Directive) : List Nat := (Scan.run ⟨[], []⟩ 0 ds).found

/-- The items of a sequence whose directive has no partner, by where they start; those that start
together stay as they are found. -/
def unbalanced {α : Type} (directive : α → Directive) (start : α → Nat) (items : List α) : List α :=
  sortBy (byNumber start) ((found (items.map directive)).filterMap (items[·]?))

end Directive

namespace Site

/-- The directive of a token; tokens that are none count as unpaired ones. -/
def directive (s : Site) : Directive := (Directive.ofKind? s.kind).getD .other

/-- The directives that lie entirely in a span of the tree, in the order of the text. -/
def directivesIn (root : Site) (span : Span) : List Site :=
  (root.tokensIn span).filter (fun t => t.kind.isDirective && span.covers t.span)

/-- The directives in a span of the tree whose partner lies outside. -/
def unbalancedIn (root : Site) (span : Span) : List Site :=
  Directive.unbalanced directive start (root.directivesIn span)

/-- Does the full span of a node hold a directive? -/
def containsDirectives (s : Site) : Bool := !(s.root.directivesIn s.fullSpan).isEmpty

/-- The directives in the full span of a node whose partner lies outside. -/
def unbalanced (s : Site) : List Site := s.root.unbalancedIn s.fullSpan

end Site

end CodeMend
