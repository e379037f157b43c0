/-!
# Edit scripts

A shortest way to turn one list of lines into another, as blocks of lines that are kept, deleted or
inserted.  The search goes from both ends at once and splits the problem where the two meet; a last
pass moves insertions along equal lines to join them with their neighbours.
-/

namespace CodeMend.Diff

/-- What is done with a block of lines. -/
inductive Tag where
  | equal
  | delete
  | insert
deriving DecidableEq

/-- A block: what is done, where it starts in the old and in the new list, and its length. -/
structure Block where
  tag : Tag
  old : Nat
  new : Nat
  length : Nat
deriving DecidableEq

/-- The length of the common start of two lists. -/
def commonPrefix : List String → List String → Nat
  | a :: as, b :: bs => if a == b then commonPrefix as bs + 1 else 0
  | _, _ => 0

/-- The length of the common end of two lists. -/
def commonSuffix (as bs : List String) : Nat := commonPrefix as.reverse bs.reverse

/-- The `length` lines from `start` on. -/
def slice (start length : Nat) (lines : List String) : List String := (lines.drop start).take length

/-! ## Where the searches meet -/

/-- The furthest point reached on each diagonal; the latest first. -/
abbrev Reach := List (Int × Nat)

/-- The furthest point on a diagonal. -/
def Reach.on (r : Reach) (k : Int) : Nat := (r.lookup k).getD 0

/-- Where the search starts on diagonal `k` in round `d`. -/
def Reach.next (r : Reach) (d k : Int) : Nat :=
  if k == -d || (k != d && r.on (k - 1) < r.on (k + 1)) then r.on (k + 1) else r.on (k - 1) + 1

/-- The diagonals of round `d`: from `d` down to `-d` in steps of two. -/
def diagonals (d : Nat) : List Int := (List.range (d + 1)).map fun (i : Nat) => (d : Int) - 2 * (i : Int)

/-- One round along the diagonals.  `equalFrom x y` is how far two points advance together and
`meets k x` says that the other search has been reached, which ends the round.  The result is the
meeting point before and after advancing, or the new reach. -/
def round (equalFrom : Nat → Nat → Nat) (meets : Int → Nat → Bool) (d : Nat) :
    Reach → List Int → Sum (Int × Nat × Nat) Reach
  | r, [] => .inr r
  | r, k :: ks =>
    let x := r.next d k
    let y := (x : Int) - k
    let x' := if 0 ≤ y then x + equalFrom x y.toNat else x
    if meets k x' then .inl (k, x, x') else round equalFrom meets d ((k, x') :: r) ks

/-- Searches from both ends, round by round, and returns the point at which to split. -/
def meeting (old new : List String) : Nat → Nat → Reach → Reach → Option (Nat × Nat)
  | 0, _, _, _ => none
  | fuel + 1, d, forward, backward =>
    let n := old.length
    let m := new.length
    let delta := (n : Int) - m
    let odd := delta % 2 != 0
    let ahead := fun x y => if x < n && y < m then commonPrefix (old.drop x) (new.drop y) else 0
    let behind := fun x y =>
      if x < n && y < m then commonSuffix (old.take (n - x)) (new.take (m - y)) else 0
    let meetsBackward := fun (k : Int) x =>
      odd && (k - delta).natAbs + 1 ≤ d && n ≤ x + backward.on (delta - k)
    match round ahead meetsBackward d forward (diagonals d) with
    | .inl (k, x, _) => some (x, ((x : Int) - k).toNat)
    | .inr forward =>
      let meetsForward := fun (k : Int) x =>
        !odd && (k - delta).natAbs ≤ d && n ≤ x + forward.on (delta - k)
      match round behind meetsForward d backward (diagonals d) with
      | .inl (k, _, x) => some (n - x, m - ((x : Int) - k).toNat)
      | .inr backward => meeting old new fuel (d + 1) forward backward

/-- The point at which to split two lists that are not empty and share neither start nor end. -/
def split? (old new : List String) : Option (Nat × Nat) :=
  meeting old new ((old.length + new.length + 1) / 2 + 1) 0 [(1, 0)] [(1, 0)]

/-! ## The script -/

/-- A block, unless it is empty. -/
def block (tag : Tag) (old new length : Nat) : List Block :=
  if length == 0 then [] else [⟨tag, old, new, length⟩]

/-- The blocks for two lists that start at the given places.  Splitting makes both parts smaller, so
the number of lines bounds the depth. -/
def blocks : Nat → Nat → Nat → List String → List String → List Block
  | 0, _, _, _, _ => []
  | fuel + 1, oldAt, newAt, old, new =>
    let front := commonPrefix old new
    let back := commonSuffix (old.drop front) (new.drop front)
    let oldMid := slice front (old.length - front - back) old
    let newMid := slice front (new.length - front - back) new
    let oldMidAt := oldAt + front
    let newMidAt := newAt + front
    let apart := block .delete oldMidAt newMidAt oldMid.length
      ++ block .insert oldMidAt newMidAt newMid.length
    let middle :=
      if oldMid.isEmpty || newMid.isEmpty then apart
      else match split? oldMid newMid with
        | some (x, y) =>
          blocks fuel oldMidAt newMidAt (oldMid.take x) (newMid.take y)
            ++ blocks fuel (oldMidAt + x) (newMidAt + y) (oldMid.drop x) (newMid.drop y)
        | none => apart
    block .equal oldAt newAt front ++ middle
      ++ block .equal (oldMidAt + oldMid.length) (newMidAt + newMid.length) back

/-! ## Joining insertions -/

/-- A block among others: those before it, nearest first, and those behind it. -/
structure Focus where
  before : List Block
  here : Block
  after : List Block

namespace Focus

/-- All blocks in order. -/
def blocks (f : Focus) : List Block := f.before.reverse ++ f.here :: f.after

/-- The new lines of an insertion; a deletion has none. -/
def newLines (new : List String) (b : Block) : List String :=
  match b.tag with
  | .delete => []
  | _ => slice b.new b.length new

/-- Puts an equal block of `length` lines at the front, joined with one that is there. -/
def consEqual (old new length : Nat) : List Block → List Block
  | b :: bs =>
    if b.tag == .equal then ⟨.equal, b.old - length, b.new - length, b.length + length⟩ :: bs
    else ⟨.equal, old, new, length⟩ :: b :: bs
  | [] => [⟨.equal, old, new, length⟩]

/-- Adds `length` equal lines behind the nearest block, joined with it if that is equal. -/
def snocEqual (old new length : Nat) : List Block → List Block
  | b :: bs =>
    if b.tag == .equal then { b with length := b.length + length } :: bs
    else ⟨.equal, old, new, length⟩ :: b :: bs
  | [] => [⟨.equal, old, new, length⟩]

/-- Moves a change up as far as it goes: past equal lines that it repeats, past changes of the other
kind, and into changes of its own kind. -/
def up (old new : List String) : Nat → Focus → Focus
  | 0, f => f
  | fuel + 1, f =>
    match f.before with
    | [] => f
    | p :: before =>
      if p.tag == .equal then
        let n := commonSuffix (slice p.old p.length old) (newLines new f.here)
        if n == 0 then f
        else
          let after := consEqual (p.old + p.length - n) (f.here.new + f.here.length - n) n f.after
          let here := { f.here with old := f.here.old - n, new := f.here.new - n }
          let p := { p with length := p.length - n }
          up old new fuel ⟨if p.length == 0 then before else p :: before, here, after⟩
      else if p.tag == f.here.tag then
        up old new fuel ⟨before, { p with length := p.length + f.here.length }, f.after⟩
      else up old new fuel ⟨before, f.here, p :: f.after⟩

/-- Moves a change down as far as it goes, likewise. -/
def down (old new : List String) : Nat → Focus → Focus
  | 0, f => f
  | fuel + 1, f =>
    match f.after with
    | [] => f
    | q :: after =>
      if q.tag == .equal then
        let n := commonPrefix (slice q.old q.length old) (newLines new f.here)
        if n == 0 then f
        else
          let before := snocEqual q.old f.here.new n f.before
          let here := { f.here with old := f.here.old + n, new := f.here.new + n }
          let q := ⟨q.tag, q.old + n, q.new + n, q.length - n⟩
          down old new fuel ⟨before, here, if q.length == 0 then after else q :: after⟩
      else if q.tag == f.here.tag then
        down old new fuel ⟨f.before, { f.here with length := f.here.length + q.length }, after⟩
      else down old new fuel ⟨q :: f.before, f.here, after⟩

/-- Moves every change of one kind up and then down. -/
def settle (tag : Tag) (old new : List String) (steps : Nat) :
    Nat → List Block → List Block → List Block
  | _, before, [] => before.reverse
  | 0, before, bs => before.reverse ++ bs
  | fuel + 1, before, b :: bs =>
    if b.tag == tag then
      let f := down old new steps (up old new steps ⟨before, b, bs⟩)
      settle tag old new steps fuel (f.here :: f.before) f.after
    else settle tag old new steps fuel (b :: before) bs

end Focus

/-- The script: the blocks with deletions settled first and insertions second. -/
def script (old new : List String) : List Block :=
  let size := old.length + new.length
  let raw := blocks (size + 1) 0 0 old new
  let steps := 2 * (size + raw.length) + 2
  Focus.settle .insert old new steps steps []
    (Focus.settle .delete old new steps steps [] raw)

end CodeMend.Diff
