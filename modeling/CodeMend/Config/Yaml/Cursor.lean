/-!
# Reading places in an indented text

In a text whose structure is its indentation a place is more than the characters that follow: the
line and the column count too.  A `Cursor` is such a place, and it moves over whole characters and
whole line breaks.
-/

namespace CodeMend.Config.Yaml

/-- A space or a tab. -/
def isBlank (c : Char) : Bool := c == ' ' || c == '\t'

/-- A character that ends a line. -/
def isBreak (c : Char) : Bool :=
  c == '\n' || c == '\r' || c == '\u0085' || c == '\u2028' || c == '\u2029'

/-- Does a word end here, at a blank, a line break or the end of the text? -/
def endsWord : List Char → Bool
  | [] => true
  | c :: _ => isBlank c || isBreak c

/-- Does a line end here? -/
def endsLine : List Char → Bool
  | [] => true
  | c :: _ => isBreak c

/-- May a name go on with the character? -/
def isNameChar (c : Char) : Bool := c.isAlphanum || c == '_' || c == '-'

/-- A place in a text. -/
structure Cursor where
  /-- What follows. -/
  rest : List Char
  line : Nat := 0
  column : Nat := 0
  /-- The octets before. -/
  index : Nat := 0

namespace Cursor

/-- The next character. -/
def peek? (c : Cursor) : Option Char := c.rest.head?

/-- The octets before the place behind `n` more characters. -/
def indexAfter (c : Cursor) (n : Nat) : Nat :=
  (c.rest.take n).foldl (fun index x => index + x.utf8Size) c.index

/-- Behind `n` characters of the line. -/
def advance (c : Cursor) (n : Nat) : Cursor :=
  { c with rest := c.rest.drop n, column := c.column + n, index := c.indexAfter n }

/-- At `rest`, which is the end of what follows on the line. -/
def advanceTo (c : Cursor) (rest : List Char) : Cursor := c.advance (c.rest.length - rest.length)

/-- Behind the characters of the line for which `p` holds. -/
def advanceWhile (c : Cursor) (p : Char → Bool) : Cursor := c.advance (c.rest.takeWhile p).length

/-- Behind a comment, if one starts here: at the end of the line. -/
def skipComment (c : Cursor) : Cursor :=
  if c.peek? == some '#' then c.advanceWhile (fun x => !isBreak x) else c

/-- At the start of the next line, if the line ends here, with the break that was passed.  Breaks of
one and of two characters are written as one line feed, separators of lines and paragraphs as they
are. -/
def nextLine? (c : Cursor) : Option (Char × Cursor) :=
  let pass (n : Nat) : Cursor := ⟨c.rest.drop n, c.line + 1, 0, c.indexAfter n⟩
  match c.rest with
  | '\r' :: '\n' :: _ => some ('\n', pass 2)
  | b :: _ =>
    if b == '\u2028' || b == '\u2029' then some (b, pass 1)
    else if isBreak b then some ('\n', pass 1)
    else none
  | [] => none

/-- Does a line of its own with a mark between documents start here? -/
def startsMark (c : Cursor) (mark : List Char) : Bool :=
  c.column == 0 && mark.isPrefixOf c.rest && endsWord (c.rest.drop mark.length)

/-- Does a line that opens or closes a document start here? -/
def atDocumentMark (c : Cursor) : Bool := c.startsMark "---".toList || c.startsMark "...".toList

end Cursor

end CodeMend.Config.Yaml
