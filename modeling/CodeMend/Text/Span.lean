/-!
# Spans of text

Offsets count bytes of UTF-8.  A `Span` is half open; the order of its ends is checked where spans
are read from outside, and every span the library builds keeps it.
-/

namespace CodeMend

/-- A half-open range of byte offsets. -/
structure Span where
  /-- Offset of the first byte. -/
  start : Nat
  /-- Offset just past the last byte. -/
  stop : Nat
deriving DecidableEq, Inhabited

namespace Span

/-- The empty span at an offset. -/
def point (offset : Nat) : Span := ⟨offset, offset⟩

/-- The span of `length` bytes from `start`. -/
def ofLength (start length : Nat) : Span := ⟨start, start + length⟩

/-- The number of bytes covered. -/
def length (s : Span) : Nat := s.stop - s.start

/-- Does the span cover no byte? -/
def isEmpty (s : Span) : Bool := s.start == s.stop

/-- Does `s` hold the byte at `offset`? -/
def contains (s : Span) (offset : Nat) : Bool := s.start ≤ offset && offset < s.stop

/-- Does `offset` lie in `s` or at its end? -/
def touches (s : Span) (offset : Nat) : Bool := s.start ≤ offset && offset ≤ s.stop

/-- Does `s` cover all of `t`? -/
def covers (s t : Span) : Bool := s.start ≤ t.start && t.stop ≤ s.stop

/-- The common part, which may be empty; `none` if a gap lies between the two. -/
def inter? (s t : Span) : Option Span :=
  let start := max s.start t.start
  let stop := min s.stop t.stop
  if stop < start then none else some ⟨start, stop⟩

/-- The span moved `n` bytes to the right. -/
def shift (s : Span) (n : Nat) : Span := ⟨s.start + n, s.stop + n⟩

end Span

end CodeMend
