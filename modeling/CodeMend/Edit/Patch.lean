import CodeMend.Edit.Splice
import CodeMend.Syntax.Document

/-!
# Patches

A `Patch` is a batch of splices against one version of a document.  It is applied as a whole or not
at all: splices that touch the same text are refused, and so is any version but the one the patch
was made for.
-/

namespace CodeMend

/-- Splices against one version of a document. -/
structure Patch where
  /-- The version the splices were made for. -/
  version : Nat
  splices : List Splice := []

/-- The version a patch produced and where its annotations are now. -/
structure Outcome where
  document : Document
  annotations : List Annotation

namespace Outcome

/-- The spans with a given mark. -/
def spansOf (o : Outcome) (m : Mark) : List Span :=
  (o.annotations.filter (·.mark == m)).map Annotation.span

/-- The spans to indent anew. -/
def formatterSpans (o : Outcome) : List Span := o.spansOf .formatter

/-- The first identifier to rename. -/
def renameTarget? (o : Outcome) : Option Span := (o.spansOf .renameTarget).head?

end Outcome

namespace Patch

/-- Does the patch change nothing? -/
def isEmpty (p : Patch) : Bool := p.splices.isEmpty

/-- All splices of patches for one version; `none` if there is no patch.  The first patch for
another version is refused. -/
def merge : List Patch → Except EditError (Option Patch)
  | [] => .ok none
  | p :: ps =>
    match ps.find? (fun q => q.version != p.version) with
    | some q => .error (.staleTree p.version (some q.version))
    | none => .ok (some ⟨p.version, (p :: ps).flatMap splices⟩)

/-- Does a span come before another, by start and then by end? -/
def spanLE (a b : Span) : Bool := a.start < b.start || (a.start == b.start && a.stop ≤ b.stop)

/-- Splices by their spans; splices with one span keep their order. -/
def sort (splices : List Splice) : List Splice := sortBy (fun s t => spanLE s.span t.span) splices

/-- Do two spans that follow each other touch the same text?  Two insertions at one offset do, since
their order would be arbitrary; an insertion at the end of a replaced span does not. -/
def clash (first second : Span) : Bool :=
  second.start < first.stop
    || (first.isEmpty && second.isEmpty && first.start == second.start)

/-- The first two neighbours that clash. -/
def firstClash : List Splice → Option (Span × Span)
  | s :: t :: ts => if clash s.span t.span then some (s.span, t.span) else firstClash (t :: ts)
  | _ => none

/-- The splices by their spans, or the first two that clash. -/
def ordered (p : Patch) : Except EditError (List Splice) :=
  let sorted := sort p.splices
  match firstClash sorted with
  | some (first, second) => .error (.overlappingEdits first second)
  | none => .ok sorted

/-- Checks version, overlap and length, and gives the splices by their spans. -/
def validate (p : Patch) (d : Document) : Except EditError (List Splice) := do
  if d.version != p.version then throw (.staleTree d.version (some p.version))
  let sorted ← p.ordered
  match sorted.find? (fun s => d.length < s.span.stop) with
  | some s => throw (.misaligned s.span)
  | none => return sorted

/-- The greatest offset there is. -/
def maxOffset : Nat := 4294967295

/-- How much longer splices make a text. -/
def totalGrowth (splices : List Splice) : Int := (splices.map Splice.growth).foldr (· + ·) 0

/-- Where an offset ends up: it moves by the growth of the splices that end no later. -/
def mapOffset (p : Patch) (offset : Nat) : Nat :=
  min ((offset : Int) + totalGrowth (p.splices.filter (·.span.stop ≤ offset))).toNat maxOffset

/-- Where a span that no splice touches ends up. -/
def mapSpan (p : Patch) (s : Span) : Span :=
  let start := p.mapOffset s.start
  ⟨start, max (p.mapOffset s.stop) start⟩

/-- A start moved by the growth before it, if that is an offset: not negative and, as far as offsets
reach, not behind the greatest one. -/
def moved? (start : Nat) (growth : Int) : Option Nat :=
  let moved := (start : Int) + growth
  if 0 ≤ moved && moved ≤ max start maxOffset then some moved.toNat else none

/-- The annotations of ordered splices in the new text: each replacement lies where its span
started, moved by the growth of the splices before it.  A start that is no offset any more is
refused. -/
def place : Int → List Splice → Except EditError (List Annotation)
  | _, [] => .ok []
  | growth, s :: ss =>
    match moved? s.span.start growth with
    | none => .error (.misaligned s.span)
    | some start => do
      let rest ← place (growth + s.growth) ss
      return s.replacement.annotations.map (·.shift start) ++ rest

/-- Applies ordered splices, the last one first. -/
def spliceAll (t : Tree) : List Splice → Except EditError Tree
  | [] => .ok t
  | s :: ss => do (← spliceAll t ss).splice s

/-- Applies the patch; the new version gets the given stamp.  Without splices it shares its tree with
the old one. -/
def apply (p : Patch) (d : Document) (stamp : Nat) : Except EditError Outcome := do
  let sorted ← p.validate d
  let tree ← spliceAll d.tree sorted
  let annotations ← place 0 sorted
  let origin := if sorted.isEmpty then d.origin else stamp
  return ⟨⟨tree, [], stamp, origin⟩, annotations⟩

end Patch

end CodeMend
