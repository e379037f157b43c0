import CodeMend.Config.Decimal
import CodeMend.Text.Blank
import CodeMend.Text.Name

/-!
# Configuration as JSON for people

JSON with comments, trailing commas, single quotes, bare keys, and numbers with a sign, in
hexadecimal or with a bare point.  A number is read as a floating point number and cut to a whole
one, nothing below zero.
-/

namespace CodeMend.Config.Json

/-! ## Blanks -/

/-- Characters that end a line. -/
def isLineEnd (c : Char) : Bool := c == '\n' || c == '\r' || c == '\u2028' || c == '\u2029'

/-- Characters that mean nothing between tokens. -/
def isSpace (c : Char) : Bool := (Text.isBlank c && c != '\u0085') || c == '\ufeff'

/-- What follows the end of a block comment. -/
def afterComment : List Char → Option (List Char)
  | '*' :: '/' :: cs => some cs
  | _ :: cs => afterComment cs
  | [] => none

/-- What follows blanks and comments.  The number of characters is enough fuel. -/
def skipFuel : Nat → List Char → List Char
  | 0, cs => cs
  | fuel + 1, cs =>
    match cs with
    | '/' :: '/' :: rest => skipFuel fuel (rest.dropWhile fun c => !isLineEnd c)
    | '/' :: '*' :: rest =>
      match afterComment rest with
      | some after => skipFuel fuel after
      | none => cs
    | c :: rest => if isSpace c then skipFuel fuel rest else cs
    | [] => []

/-- What follows blanks and comments. -/
def skip (cs : List Char) : List Char := skipFuel cs.length cs

/-! ## Strings and keys -/

/-- A piece of a string: a character, or a unit of UTF-16 from an escape. -/
inductive Piece where
  | char (c : Char)
  | unit (n : Nat)

/-- The character that an escape with one letter stands for; other letters stand for themselves. -/
def simpleEscape? (c : Char) : Option Char :=
  match c with
  | 'b' => some '\x08'
  | 'f' => some '\x0c'
  | 'n' => some '\n'
  | 'r' => some '\r'
  | 't' => some '\t'
  | 'v' => some '\x0b'
  | '0' => some '\x00'
  | c => if c.isDigit || c == 'x' || c == 'u' || isLineEnd c then none else some c

/-- The pieces of a string up to its closing quote, and what follows. -/
def pieces? (quote : Char) : List Char → Option (List Piece × List Char)
  | [] => none
  | '\\' :: '\r' :: '\n' :: cs => pieces? quote cs
  | '\\' :: 'x' :: a :: b :: cs => do
    let n ← Data.ofDigits? 16 [a, b]
    let (ps, rest) ← pieces? quote cs
    some (.char (.ofNat n) :: ps, rest)
  | '\\' :: 'u' :: a :: b :: c :: d :: cs => do
    let n ← Data.ofDigits? 16 [a, b, c, d]
    let (ps, rest) ← pieces? quote cs
    some (.unit n :: ps, rest)
  | '\\' :: c :: cs =>
    if isLineEnd c then pieces? quote cs
    else do
      let e ← simpleEscape? c
      let (ps, rest) ← pieces? quote cs
      some (.char e :: ps, rest)
  | c :: cs =>
    if c == quote then some ([], cs)
    else if c == '\\' || isLineEnd c then none
    else (pieces? quote cs).map fun r => (.char c :: r.1, r.2)

/-- The characters of pieces; a unit of the upper half needs one of the lower half behind it. -/
def assemble? : List Piece → Option (List Char)
  | [] => some []
  | .char c :: ps => (assemble? ps).map (c :: ·)
  | .unit high :: .unit low :: ps =>
    if 0xD800 ≤ high && high < 0xDC00 then
      if 0xDC00 ≤ low && low < 0xE000 then
        (assemble? ps).map (Char.ofNat ((high - 0xD800) * 0x400 + (low - 0xDC00) + 0x10000) :: ·)
      else none
    else if 0xDC00 ≤ high && high < 0xE000 then none
    else (assemble? (.unit low :: ps)).map (Char.ofNat high :: ·)
  | .unit n :: ps =>
    if 0xD800 ≤ n && n < 0xE000 then none else (assemble? ps).map (Char.ofNat n :: ·)

/-- A string behind its opening quote. -/
def string? (quote : Char) (cs : List Char) : Option (String × List Char) := do
  let (ps, rest) ← pieces? quote cs
  some (String.ofList (← assemble? ps), rest)

/-- The pieces of a bare key, of which the first must be one that a key can start with if `atStart`
holds, and what follows them. -/
def barePieces (atStart : Bool) : List Char → List Piece × List Char
  | '\\' :: 'u' :: a :: b :: c :: d :: cs =>
    match Data.ofDigits? 16 [a, b, c, d] with
    | some n =>
      let (ps, rest) := barePieces false cs
      (.unit n :: ps, rest)
    | none => ([], '\\' :: 'u' :: a :: b :: c :: d :: cs)
  | c :: cs =>
    if Text.isNameStart c || (!atStart && Text.isNamePart c) then
      let (ps, rest) := barePieces false cs
      (.char c :: ps, rest)
    else ([], c :: cs)
  | [] => ([], [])

/-- A key: bare or in quotes. -/
def key? (cs : List Char) : Option (String × List Char) :=
  match cs with
  | '"' :: rest => string? '"' rest
  | '\'' :: rest => string? '\'' rest
  | cs => do
    let (ps, rest) := barePieces true cs
    if ps.isEmpty then none else some (String.ofList (← assemble? ps), rest)

/-! ## Numbers -/

/-- Digits and what follows. -/
def digits (cs : List Char) : List Char × List Char := cs.span Char.isDigit

/-- An exponent and what follows; zero if there is none. -/
def exponent (cs : List Char) : Int × List Char :=
  match cs with
  | e :: rest =>
    if e == 'e' || e == 'E' then
      let (sign, body) := match rest with
        | '+' :: body => (1, body)
        | '-' :: body => (-1, body)
        | body => ((1 : Int), body)
      let (ds, after) := digits body
      match Data.ofDigits? 10 ds with
      | some n => (sign * n, after)
      | none => (0, cs)
    else (0, cs)
  | [] => (0, [])

/-- A decimal number without its sign, whether it is written as a whole number, and what follows.  It
has digits, a point among them, before or behind them, and an exponent. -/
def decimal? (cs : List Char) : Option (Decimal × Bool × List Char) :=
  let (whole, afterWhole) := match cs with
    | '0' :: rest => (['0'], rest)
    | cs => digits cs
  let (fraction, afterFraction) := match afterWhole with
    | '.' :: after => digits after
    | rest => ([], rest)
  if whole.isEmpty && fraction.isEmpty then none
  else do
    let (power, rest) := exponent afterFraction
    let mantissa ← Data.ofDigits? 10 (whole ++ fraction)
    some (⟨mantissa, power - fraction.length⟩, rest.length == afterWhole.length, rest)

/-- A word at the start, and what follows it. -/
def word? (word : String) (cs : List Char) : Option (List Char) :=
  if word.toList.isPrefixOf cs then some (cs.drop word.length) else none

/-- What stands before a number. -/
inductive Sign where
  | none
  | plus
  | minus
deriving DecidableEq

/-- A sign, and what follows it. -/
def sign : List Char → Sign × List Char
  | '-' :: cs => (.minus, cs)
  | '+' :: cs => (.plus, cs)
  | cs => (.none, cs)

/-- A decimal number as a value: cut to a whole number, and nothing below zero.  What is written as a
whole number of more than 64 bits is too large, but near to the largest one. -/
def decimalData (sign : Sign) (isWhole : Bool) (d : Decimal) : Data :=
  let bound := if sign == .minus then 9223372036854775808 else 9223372036854775807
  match d.wholePart? with
  | none => .beyond none
  | some n =>
    let n := if sign == .minus then 0 else n
    if isWhole && bound < d.mantissa then .beyond (some n) else .int n

/-- A hexadecimal number as a value; it must be below 2 to the power of 32 and without a sign. -/
def hexData (sign : Sign) (n : Nat) : Data :=
  if sign == .none && n < 4294967296 then .int n else .beyond none

/-- A number, and what follows it.  Infinity is cut to the largest whole number, and neither it nor
what is not a number may have a plus sign. -/
def number? (cs : List Char) : Option (Data × List Char) :=
  let (sign, body) := sign cs
  let special (n : Nat) : Data := match sign with
    | .none => .int n
    | .plus => .beyond none
    | .minus => .int 0
  let decimal := (decimal? body).map fun (d, isWhole, rest) => (decimalData sign isWhole d, rest)
  match word? "Infinity" body, word? "NaN" body, body with
  | some rest, _, _ => some (special (Data.natBound - 1), rest)
  | _, some rest, _ => some (special 0, rest)
  | _, _, '0' :: x :: rest =>
    let (hex, after) := rest.span fun c => (Data.digit? 16 c).isSome
    if (x == 'x' || x == 'X') && !hex.isEmpty then
      (Data.ofDigits? 16 hex).map fun n => (hexData sign n, after)
    else decimal
  | _, _, _ => decimal

/-! ## Values -/

mutual

/-- A value at the start, and what follows it.  Twice the number of characters is enough fuel. -/
def value? : Nat → List Char → Option (Data × List Char)
  | 0, _ => none
  | fuel + 1, cs =>
    match cs with
    | '\x7b' :: rest => (members? fuel (skip rest)).map fun r => (.table r.1, r.2)
    | '[' :: rest => (items? fuel (skip rest)).map fun r => (.list r.1, r.2)
    | '"' :: rest => (string? '"' rest).map fun r => (.text r.1, r.2)
    | '\'' :: rest => (string? '\'' rest).map fun r => (.text r.1, r.2)
    | cs =>
      match word? "null" cs, word? "true" cs, word? "false" cs with
      | some rest, _, _ => some (.null, rest)
      | _, some rest, _ => some (.bool true, rest)
      | _, _, some rest => some (.bool false, rest)
      | _, _, _ => number? cs

/-- The members of an object up to its closing brace. -/
def members? : Nat → List Char → Option (List (String × Data) × List Char)
  | 0, _ => none
  | fuel + 1, cs =>
    match cs with
    | '\x7d' :: rest => some ([], rest)
    | cs => do
      let (key, rest) ← key? cs
      match skip rest with
      | ':' :: rest =>
        let (value, rest) ← value? fuel (skip rest)
        match skip rest with
        | ',' :: rest =>
          let (more, rest) ← members? fuel (skip rest)
          some ((key, value) :: more, rest)
        | '\x7d' :: rest => some ([(key, value)], rest)
        | _ => none
      | _ => none

/-- The items of an array up to its closing bracket. -/
def items? : Nat → List Char → Option (List Data × List Char)
  | 0, _ => none
  | fuel + 1, cs =>
    match cs with
    | ']' :: rest => some ([], rest)
    | cs => do
      let (value, rest) ← value? fuel cs
      match skip rest with
      | ',' :: rest =>
        let (more, rest) ← items? fuel (skip rest)
        some (value :: more, rest)
      | ']' :: rest => some ([value], rest)
      | _ => none

end

/-- The value of a whole text. -/
def read? (text : String) : Option Data := do
  let cs := text.toList
  let (value, rest) ← value? (2 * cs.length + 1) (skip cs)
  guard (skip rest).isEmpty
  some value

end CodeMend.Config.Json
