/-!
# Sets of code points

A character property beyond ASCII is a list of closed ranges of code points, ascending and apart.
-/

namespace CodeMend.Text

/-- Is `n` in one of the closed ranges? -/
def inRanges : List (Nat × Nat) → Nat → Bool
  | [], _ => false
  | (lo, hi) :: rest, n => (lo ≤ n && n ≤ hi) || inRanges rest n

end CodeMend.Text
