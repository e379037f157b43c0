import CodeMend.Config.Data
import CodeMend.Config.Yaml.Cursor

/-!
# Scalars

A scalar is written plain, in quotes or as a block of lines.  Plain and quoted scalars may go on over
several lines, which are *folded*: one line break between two words counts as a space, and of more
breaks the first is dropped.  A block keeps its line breaks, or folds those between lines that are
not indented further.
-/

namespace CodeMend.Config.Yaml

/-! ## Folding -/

/-- The text that stands for line breaks between two words. -/
def folded : List Char → List Char
  | ['\n'] => [' ']
  | '\n' :: more => more
  | breaks => breaks

/-- Blanks and line breaks. -/
structure Space where
  /-- The blanks before the first break. -/
  blanks : List Char := []
  breaks : List Char := []

/-- The text that stands for the space between two words. -/
def Space.text (s : Space) : List Char := if s.breaks.isEmpty then s.blanks else folded s.breaks

/-- The space at the cursor.  A tab in the indentation up to `margin` is refused. -/
def spaceFrom? (margin : Nat) : Nat → Space → Cursor → Option (Space × Cursor)
  | 0, s, c => some (s, c)
  | fuel + 1, s, c =>
    match c.nextLine?, c.peek? with
    | some (b, next), _ => spaceFrom? margin fuel ⟨[], s.breaks ++ [b]⟩ next
    | none, some x =>
      if !isBlank x then some (s, c)
      else if s.breaks.isEmpty then
        spaceFrom? margin fuel { s with blanks := s.blanks ++ [x] } (c.advance 1)
      else if x == '\t' && c.column < margin then none
      else spaceFrom? margin fuel s (c.advance 1)
    | none, none => some (s, c)

/-- The space at the cursor and where it ends. -/
def space? (margin : Nat) (c : Cursor) : Option (Space × Cursor) :=
  spaceFrom? margin c.rest.length {} c

/-! ## Plain scalars -/

/-- Characters that hold collections in brackets together. -/
def isBracket (c : Char) : Bool := [',', '[', ']', '\x7b', '\x7d'].contains c

/-- The number of characters of a plain scalar up to the next space.  A colon before a space ends it,
and within brackets so do the characters of brackets. -/
def plainRun? (bracketed : Bool) : List Char → Option Nat
  | [] => some 0
  | c :: cs =>
    if isBlank c || isBreak c then some 0
    else if c == ':' && bracketed && cs.head?.any (fun d => d == '?' || isBracket d) then none
    else if (c == ':' && endsWord cs) || (bracketed && isBracket c) then some 0
    else (plainRun? bracketed cs).map (· + 1)

/-- The rest of a plain scalar behind `text` and `space`, where it ends, and whether a line break
stands before that place. -/
def plainFrom? (bracketed : Bool) (margin : Nat) :
    Nat → List Char → Space → Cursor → Option (List Char × Bool × Cursor)
  | 0, _, _, _ => none
  | fuel + 1, text, s, c => do
    let broken := !s.breaks.isEmpty
    if c.atDocumentMark || c.peek? == some '#' then some (text, broken, c)
    else
      let n ← plainRun? bracketed c.rest
      if n == 0 then some (text, broken, c)
      else
        let text := text ++ s.text ++ c.rest.take n
        let c := c.advance n
        let (s, next) ← space? margin c
        if next.index == c.index then some (text, false, c)
        else if !bracketed && next.column < margin then some (text, !s.breaks.isEmpty, next)
        else plainFrom? bracketed margin fuel text s next

/-- A plain scalar.  Within a block its further lines are indented by at least `margin`. -/
def plain? (bracketed : Bool) (margin : Nat) (c : Cursor) : Option (List Char × Bool × Cursor) :=
  plainFrom? bracketed margin (c.rest.length + 1) [] {} c

/-! ## Quoted scalars -/

/-- The character that an escape with one letter stands for. -/
def escape? : Char → Option Char
  | '0' => some '\x00'
  | 'a' => some '\x07'
  | 'b' => some '\x08'
  | 't' => some '\t'
  | '\t' => some '\t'
  | 'n' => some '\n'
  | 'v' => some '\x0b'
  | 'f' => some '\x0c'
  | 'r' => some '\r'
  | 'e' => some '\x1b'
  | ' ' => some ' '
  | '"' => some '"'
  | '/' => some '/'
  | '\\' => some '\\'
  | 'N' => some '\u0085'
  | '_' => some '\u00a0'
  | 'L' => some '\u2028'
  | 'P' => some '\u2029'
  | _ => none

/-- The number of hexadecimal digits of an escape with a code. -/
def codeLength? : Char → Option Nat
  | 'x' => some 2
  | 'u' => some 4
  | 'U' => some 8
  | _ => none

/-- The character of an escape behind its backslash, and the number of characters it takes. -/
def escaped? : List Char → Option (Char × Nat)
  | [] => none
  | c :: cs =>
    match codeLength? c with
    | none => (escape? c).map (·, 1)
    | some n => do
      guard (n ≤ cs.length)
      let code ← Data.ofDigits? 16 (cs.take n)
      guard (code < 0xD800 || (0xDFFF < code && code ≤ 0x10FFFF))
      some (.ofNat code, n + 1)

/-- The rest of a quoted scalar behind `text`, and what follows its closing quote. -/
def quotedFrom? (mark : Char) : Nat → List Char → Cursor → Option (List Char × Cursor)
  | 0, _, _ => none
  | fuel + 1, text, c => do
    guard !c.atDocumentMark
    match c.rest with
    | [] => none
    | x :: more =>
      if isBlank x || isBreak x then
        let (s, next) ← space? 0 c
        quotedFrom? mark fuel (text ++ s.text) next
      else if x == mark then
        if mark == '\'' && more.head? == some mark then
          quotedFrom? mark fuel (text ++ [mark]) (c.advance 2)
        else some (text, c.advance 1)
      else if x == '\\' && mark == '"' then
        match (c.advance 1).nextLine? with
        | some (_, next) =>
          let (s, next) ← space? 0 next
          quotedFrom? mark fuel (text ++ s.breaks) next
        | none =>
          let (e, n) ← escaped? more
          quotedFrom? mark fuel (text ++ [e]) (c.advance (n + 1))
      else quotedFrom? mark fuel (text ++ [x]) (c.advance 1)

/-- A quoted scalar that starts with the quote `mark`. -/
def quoted? (mark : Char) (c : Cursor) : Option (List Char × Cursor) :=
  quotedFrom? mark (c.rest.length + 1) [] (c.advance 1)

/-! ## Blocks of lines -/

/-- What happens to the line breaks at the end of a block. -/
inductive Chomping where
  /-- The last one is kept. -/
  | clip
  | keep
  | strip
deriving DecidableEq

/-- The marks behind the one that opens a block: what happens to its last line breaks and how far it
is indented. -/
structure BlockHead where
  chomping : Chomping := .clip
  increment : Option Nat := none

namespace BlockHead

/-- Takes one mark into account; each kind of mark may stand once. -/
def add? (h : BlockHead) (mark : Char) : Option BlockHead :=
  match mark, h.chomping, h.increment with
  | '+', .clip, _ => some { h with chomping := .keep }
  | '-', .clip, _ => some { h with chomping := .strip }
  | d, _, none =>
    if '1' ≤ d && d ≤ '9' then some { h with increment := some (d.toNat - '0'.toNat) } else none
  | _, _, _ => none

end BlockHead

/-- Empty lines before a line of a block with the given indentation, and the place behind the
indentation.  Without an indentation, also the deepest column that was met. -/
def emptyLines? (indent : Option Nat) :
    Nat → Nat → List Char → Cursor → Option (Nat × List Char × Cursor)
  | 0, _, _, _ => none
  | fuel + 1, deepest, breaks, c =>
    let room := match indent with
      | some i => i - c.column
      | none => c.rest.length
    let c := c.advance ((c.rest.take room).takeWhile (· == ' ')).length
    let deepest := max deepest c.column
    if c.peek? == some '\t' && indent.all (c.column < ·) then none
    else match c.nextLine? with
      | some (b, next) => emptyLines? indent fuel deepest (breaks ++ [b]) next
      | none => some (deepest, breaks, c)

/-- The lines of a block behind `text`, the break before the next line and the breaks of empty lines
before it; `deeper` says that the line before was indented further. -/
def blockLines? (literal : Bool) (indent : Nat) :
    Nat → List Char → List Char → List Char → Bool → Cursor →
      Option (List Char × List Char × List Char × Cursor)
  | 0, _, _, _, _, _ => none
  | fuel + 1, text, last, empty, deeper, c =>
    if c.column != indent || c.rest.isEmpty then some (text, last, empty, c)
    else do
      let further := c.peek?.any isBlank
      let joint :=
        if !literal && last == ['\n'] && !deeper && !further then
          if empty.isEmpty then [' '] else []
        else last
      let body := c.rest.takeWhile fun x => !isBreak x
      let text := text ++ joint ++ empty ++ body
      let c := c.advance body.length
      let (last, c) := match c.nextLine? with
        | some (b, next) => ([b], next)
        | none => ([], c)
      let (_, empty, c) ← emptyLines? (some indent) (c.rest.length + 1) 0 [] c
      blockLines? literal indent fuel text last empty further c

/-- A block of lines, and whether it keeps its line breaks.  `outer` is the indentation of the
collection it stands in. -/
def block? (outer : Option Nat) (c : Cursor) : Option (Bool × List Char × Cursor) := do
  let literal := c.peek? == some '|'
  let c := c.advance 1
  let isHeadMark (x : Char) := x == '+' || x == '-' || x.isDigit
  let marks := c.rest.takeWhile isHeadMark
  let head ← marks.foldlM BlockHead.add? {}
  let c := ((c.advance marks.length).advanceWhile isBlank).skipComment
  guard (endsLine c.rest)
  let c := (c.nextLine?.map (·.2)).getD c
  let given := head.increment.map (outer.getD 0 + ·)
  let (deepest, empty, c) ← emptyLines? given (c.rest.length + 1) 0 [] c
  let indent := given.getD (max 1 (max deepest ((outer.map (· + 1)).getD 0)))
  let (text, last, empty, c) ← blockLines? literal indent (c.rest.length + 1) [] [] empty false c
  let tail := match head.chomping with
    | .strip => []
    | .clip => last
    | .keep => last ++ empty
  some (literal, text ++ tail, c)

end CodeMend.Config.Yaml
