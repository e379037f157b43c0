import CodeMend.Diff.Line
import CodeMend.Diff.Script

/-!
# Unified diffs

The changes between two texts, with three lines of context around them.  Equal texts have the empty
diff.
-/

namespace CodeMend.Diff

/-- A stretch of both lists: the lines of the old one give way to those of the new one, or both are
equal. -/
structure Stretch where
  isEqual : Bool
  old : Nat
  oldLength : Nat
  new : Nat
  newLength : Nat

/-- The stretch of equal lines. -/
def Stretch.equal (old new length : Nat) : Stretch := ⟨true, old, length, new, length⟩

/-- The stretch of one change: its deletions and its insertions, either of which may be missing. -/
def change? (changes : List Block) : Option Stretch :=
  let deletes := changes.filter (·.tag == .delete)
  let inserts := changes.filter (·.tag == .insert)
  let oldLength := (deletes.map Block.length).foldr (· + ·) 0
  let newLength := (inserts.map Block.length).foldr (· + ·) 0
  match deletes.head?, inserts.head? with
  | some d, some i => some ⟨false, d.old, oldLength, i.new, newLength⟩
  | some d, none => some ⟨false, d.old, oldLength, d.new, 0⟩
  | none, some i => some ⟨false, i.old, 0, i.new, newLength⟩
  | none, none => none

/-- Joins neighbouring blocks; `changes` holds those of the current change, last first. -/
def join : List Block → List Block → List Stretch
  | changes, [] => (change? changes.reverse).toList
  | changes, b :: bs =>
    if b.tag == .equal then
      (change? changes.reverse).toList ++ Stretch.equal b.old b.new b.length :: join [] bs
    else join (b :: changes) bs

/-- Merges equal stretches that follow each other. -/
def mergeEqual : List Stretch → List Stretch
  | [] => []
  | s :: rest =>
    match mergeEqual rest with
    | t :: ts =>
      if s.isEqual && t.isEqual then .equal s.old s.new (s.oldLength + t.oldLength) :: ts
      else s :: t :: ts
    | [] => [s]

/-- How many equal lines are shown around a change. -/
def context : Nat := 3

/-- The last lines of an equal stretch, as many as context needs. -/
def Stretch.tail (s : Stretch) : Stretch :=
  let skip := s.oldLength - context
  .equal (s.old + skip) (s.new + skip) (s.oldLength - skip)

/-- The first lines of an equal stretch, as many as context needs. -/
def Stretch.init (s : Stretch) : Stretch := .equal s.old s.new (min s.oldLength context)

/-- Cuts the equal lines at the start down to context. -/
def trimFirst : List Stretch → List Stretch
  | s :: rest => (if s.isEqual then s.tail else s) :: rest
  | [] => []

/-- Cuts the equal lines at the end down to context. -/
def trimLast : List Stretch → List Stretch
  | [] => []
  | [s] => [if s.isEqual then s.init else s]
  | s :: rest => s :: trimLast rest

/-- Cuts stretches into hunks at long runs of equal lines; `hunk` holds the current one. -/
def hunksFrom : List Stretch → List Stretch → List (List Stretch)
  | hunk, [] => if hunk.all Stretch.isEqual then [] else [hunk]
  | hunk, s :: rest =>
    if s.isEqual && 2 * context < s.oldLength then
      (hunk ++ [s.init]) :: hunksFrom [s.tail] rest
    else hunksFrom (hunk ++ [s]) rest

/-- The hunks of a script. -/
def hunks (blocks : List Block) : List (List Stretch) :=
  hunksFrom [] (trimLast (trimFirst (mergeEqual (join [] blocks))))

/-- A range in a hunk header: the first line, counted from one, and the length unless it is one.  An
empty range names the line before it. -/
def headerRange (start stop : Nat) : String :=
  let length := stop - start
  if length == 1 then toString (start + 1)
  else toString (if length == 0 then start else start + 1) ++ "," ++ toString length

/-- The header of a hunk. -/
def header (hunk : List Stretch) : String :=
  match hunk.head?, hunk.getLast? with
  | some first, some last =>
    "@@ -" ++ headerRange first.old (last.old + last.oldLength) ++ " +"
      ++ headerRange first.new (last.new + last.newLength) ++ " @@\n"
  | _, _ => ""

/-- A line behind its mark; a line without an ending says so. -/
def markLine (mark : String) (line : String) : String :=
  mark ++ line ++ if isEnded line then "" else "\n\\ No newline at end of file\n"

/-- The lines of a stretch: what is deleted, then what is inserted. -/
def renderStretch (old new : List String) (s : Stretch) : String :=
  if s.isEqual then String.join ((slice s.old s.oldLength old).map (markLine " "))
  else String.join ((slice s.old s.oldLength old).map (markLine "-"))
    ++ String.join ((slice s.new s.newLength new).map (markLine "+"))

/-- A hunk with its header. -/
def renderHunk (old new : List String) (hunk : List Stretch) : String :=
  header hunk ++ String.join (hunk.map (renderStretch old new))

/-- The unified diff of two texts. -/
def unified (before after : String) : String :=
  let old := lines before
  let new := lines after
  match hunks (script old new) with
  | [] => ""
  | hs => "--- original\n+++ fixed\n" ++ String.join (hs.map (renderHunk old new))

end CodeMend.Diff
