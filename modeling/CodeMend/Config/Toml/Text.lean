import CodeMend.Config.Data

/-!
# Space, strings and keys

What stands between values, and the two kinds of text: strings in quotes and keys.
-/

namespace CodeMend.Config.Toml

/-! ## Space -/

/-- Characters that may not stand in comments and strings. -/
def isControl (c : Char) : Bool := (c.toNat < 0x20 && c != '\t') || c.toNat == 0x7f

/-- What follows blanks on a line. -/
def skipBlanks (cs : List Char) : List Char := cs.dropWhile fun c => c == ' ' || c == '\t'

/-- What follows a line break. -/
def lineBreak? : List Char → Option (List Char)
  | '\n' :: cs => some cs
  | '\r' :: '\n' :: cs => some cs
  | _ => none

/-- What follows a comment, if there is one: a line break or the end. -/
def skipComment? : List Char → Option (List Char)
  | '#' :: cs =>
    let (body, rest) := cs.span fun c => c != '\n'
    let (body, rest) :=
      if body.getLast? == some '\r' && !rest.isEmpty then (body.dropLast, '\r' :: rest)
      else (body, rest)
    if body.any isControl then none else some rest
  | cs => some cs

/-- What follows the end of a line, on which nothing but a comment is left. -/
def endLine? (cs : List Char) : Option (List Char) := do
  match ← skipComment? (skipBlanks cs) with
  | [] => some []
  | rest => lineBreak? rest

/-- What follows blanks, comments and line breaks.  The number of characters is enough fuel. -/
def skipLines? : Nat → List Char → Option (List Char)
  | 0, cs => some cs
  | fuel + 1, cs => do
    let rest ← skipComment? (skipBlanks cs)
    match lineBreak? rest with
    | some after => skipLines? fuel after
    | none => some rest

/-! ## Strings -/

/-- A character from the digits of its code point. -/
def codePoint? (digits : List Char) : Option Char := do
  let n ← Data.ofDigits? 16 digits
  if n.isValidChar then some (Char.ofNat n) else none

/-- The character of an escape behind its backslash, and what follows. -/
def escape? : List Char → Option (Char × List Char)
  | 'b' :: cs => some ('\x08', cs)
  | 't' :: cs => some ('\t', cs)
  | 'n' :: cs => some ('\n', cs)
  | 'f' :: cs => some ('\x0c', cs)
  | 'r' :: cs => some ('\r', cs)
  | 'e' :: cs => some ('\x1b', cs)
  | '"' :: cs => some ('"', cs)
  | '\\' :: cs => some ('\\', cs)
  | 'x' :: cs => if cs.length < 2 then none else (codePoint? (cs.take 2)).map (·, cs.drop 2)
  | 'u' :: cs => if cs.length < 4 then none else (codePoint? (cs.take 4)).map (·, cs.drop 4)
  | 'U' :: cs => if cs.length < 8 then none else (codePoint? (cs.take 8)).map (·, cs.drop 8)
  | _ => none

/-- A string on one line up to its closing quote; only one in double quotes has escapes. -/
def lineString? (quote : Char) : Nat → List Char → Option (List Char × List Char)
  | 0, _ => none
  | fuel + 1, cs =>
    match cs with
    | [] => none
    | c :: rest =>
      if c == quote then some ([], rest)
      else if c == '\\' && quote == '"' then do
        let (e, rest) ← escape? rest
        let (more, rest) ← lineString? quote fuel rest
        some (e :: more, rest)
      else if isControl c then none
      else (lineString? quote fuel rest).map fun r => (c :: r.1, r.2)

/-- What follows blanks and line breaks. -/
def skipWhite : List Char → List Char
  | '\r' :: '\n' :: cs => skipWhite cs
  | c :: cs => if c == ' ' || c == '\t' || c == '\n' then skipWhite cs else c :: cs
  | [] => []

/-- Is a backslash the last thing on its line? -/
def endsItsLine (cs : List Char) : Bool := (lineBreak? (skipBlanks cs)).isSome

/-- A string over several lines up to its three closing quotes, before which up to two quotes belong
to the string.  Line breaks are kept as they are. -/
def blockString? (quote : Char) : Nat → List Char → Option (List Char × List Char)
  | 0, _ => none
  | fuel + 1, cs =>
    match cs with
    | [] => none
    | c :: rest =>
      if c == quote then
        let (run, after) := cs.span (· == quote)
        if run.length < 3 then
          (blockString? quote fuel rest).map fun r => (c :: r.1, r.2)
        else if run.length ≤ 5 then some (run.drop 3, after)
        else none
      else if c == '\\' && quote == '"' then
        if endsItsLine rest then blockString? quote fuel (skipWhite rest)
        else do
          let (e, rest) ← escape? rest
          let (more, rest) ← blockString? quote fuel rest
          some (e :: more, rest)
      else
        let breakLength := cs.length - ((lineBreak? cs).getD cs).length
        if breakLength == 0 && isControl c then none
        else
          let n := max 1 breakLength
          (blockString? quote fuel (cs.drop n)).map fun r => (cs.take n ++ r.1, r.2)

/-- A string behind its first quote. -/
def string? (quote : Char) (cs : List Char) : Option (String × List Char) :=
  let r := match cs with
    | a :: b :: rest =>
      if a == quote && b == quote then
        blockString? quote (rest.length + 1) ((lineBreak? rest).getD rest)
      else lineString? quote (cs.length + 1) cs
    | cs => lineString? quote (cs.length + 1) cs
  r.map fun r => (String.ofList r.1, r.2)

/-! ## Keys -/

/-- Characters of keys without quotes. -/
def isBare (c : Char) : Bool := c.isAlphanum || c == '_' || c == '-'

/-- A key that is not dotted. -/
def simpleKey? (cs : List Char) : Option (String × List Char) :=
  match cs with
  | '"' :: rest => (lineString? '"' (rest.length + 1) rest).map fun r => (String.ofList r.1, r.2)
  | '\'' :: rest => (lineString? '\'' (rest.length + 1) rest).map fun r => (String.ofList r.1, r.2)
  | cs =>
    let (bare, rest) := cs.span isBare
    if bare.isEmpty then none else some (String.ofList bare, rest)

/-- The keys of a dotted key, and what follows it and the blanks behind it. -/
def keys? : Nat → List Char → Option (List String × List Char)
  | 0, _ => none
  | fuel + 1, cs => do
    let (key, rest) ← simpleKey? (skipBlanks cs)
    match skipBlanks rest with
    | '.' :: rest => (keys? fuel rest).map fun r => (key :: r.1, r.2)
    | rest => some ([key], rest)

end CodeMend.Config.Toml
