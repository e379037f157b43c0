/-!
# Lines and columns

A `LineIndex` turns byte offsets into positions and back.  Lines end with a line feed; lines and
columns count from one, columns in bytes.
-/

namespace CodeMend

/-- A line and a column, both from one. -/
structure Position where
  line : Nat
  column : Nat
deriving DecidableEq

/-- Where the lines of a text start, and how long the text is. -/
structure LineIndex where
  starts : List Nat
  length : Nat

namespace LineIndex

/-- The offsets behind each line feed, from offset `here` on. -/
def startsFrom : Nat → List Char → List Nat
  | _, [] => []
  | here, c :: cs =>
    let next := here + c.utf8Size
    if c == '\n' then next :: startsFrom next cs else startsFrom next cs

/-- The index of a text. -/
def ofText (text : String) : LineIndex := ⟨0 :: startsFrom 0 text.toList, text.utf8ByteSize⟩

/-- The number of lines. -/
def lineCount (i : LineIndex) : Nat := i.starts.length

/-- The position of an offset; one behind the end counts as the end. -/
def position (i : LineIndex) (offset : Nat) : Position :=
  let offset := min offset i.length
  let upTo := i.starts.takeWhile (· ≤ offset)
  ⟨upTo.length, offset - (upTo.getLast?).getD 0 + 1⟩

/-- The number of offsets there are: an offset is a word of 32 bits. -/
def offsetCount : Nat := 4294967296

/-- The offset of a position inside the text.  The column says how far it lies behind the start of
its line, even if that is behind the end of the line.  A column that no word holds has no offset; the
sum of the start and the column is a word again, so it can wrap. -/
def offset? (i : LineIndex) (p : Position) : Option Nat := do
  guard (0 < p.line && 0 < p.column)
  let start ← i.starts[p.line - 1]?
  guard (p.column - 1 < offsetCount)
  let offset := (start + (p.column - 1)) % offsetCount
  guard (offset ≤ i.length)
  some offset

end LineIndex

end CodeMend
