import CodeMend.Syntax.Lexer

/-!
# Literals, byte by byte

Strings, character literals and numbers are cut by offsets in the bytes of a text.  A scan starts
at an offset and gives the one behind what it takes.  It knows nothing of characters: it compares
bytes with those of ASCII characters, and behind a backslash it takes one byte along, which may be
the first of a longer character.  So a literal is cut at the next place between two characters, if
the scan did not end at one.

`scanQuoted`, `scanVerbatim` and `scanNumber` of the lexer say which characters these are.
-/

namespace CodeMend.Bytes

open Lexer

/-- The bytes of characters, one character behind the other. -/
def ofChars (cs : List Char) : List UInt8 := cs.flatMap String.utf8EncodeChar

/-- Is the byte the one of an ASCII character of the class? -/
def isOf (p : Char → Bool) (b : UInt8) : Bool := b < 0x80 && p (Char.ofUInt8 b)

/-- Is there a byte at the offset, and is it of the class? -/
def standsAt (p : Char → Bool) (bytes : List UInt8) (stop : Nat) : Bool :=
  bytes[stop]?.any (isOf p)

/-! ## Places between characters -/

/-- Does the offset lie between two characters, or at an end of the text?  The bytes `0x80` to
`0xBF` are inside of a character. -/
def isBoundary (bytes : List UInt8) (stop : Nat) : Bool :=
  stop == 0 || stop == bytes.length || bytes[stop]?.any (fun b => b < 0x80 || 0xC0 ≤ b)

/-- The first place between two characters from the offset on. -/
def nextBoundary (bytes : List UInt8) (stop : Nat) : Nat :=
  if isBoundary bytes stop then stop
  else if stop < bytes.length then nextBoundary bytes (stop + 1) else stop
termination_by bytes.length - stop

/-! ## Strings and character literals -/

/-- Where a literal ends that is open at the offset, and whether it is closed there.  A verbatim one
goes on behind a doubled quote, and takes backslashes and line breaks like any other byte. -/
def literalStop (quote : Char) (verbatim : Bool) (bytes : List UInt8) (stop : Nat) : Nat × Bool :=
  if _ : stop < bytes.length then
    if standsAt (· == quote) bytes stop && verbatim && standsAt (· == quote) bytes (stop + 1) then
      literalStop quote verbatim bytes (stop + 2)
    else if standsAt (· == quote) bytes stop then (stop + 1, true)
    else if standsAt (· == '\\') bytes stop && !verbatim then
      literalStop quote verbatim bytes (min (stop + 2) bytes.length)
    else if standsAt isLineBreak bytes stop && !verbatim then (stop, false)
    else literalStop quote verbatim bytes (stop + 1)
  else (stop, false)
termination_by bytes.length - stop

/-- Where a literal ends whose opening is the first `opening` bytes at `pos`, and whether it is
closed there. -/
def quotedStop (quote : Char) (opening : Nat) (verbatim : Bool) (bytes : List UInt8) (pos : Nat) :
    Nat × Bool :=
  let (stop, closed) := literalStop quote verbatim bytes (pos + opening)
  (nextBoundary bytes stop, closed)

/-- Where a string ends. -/
def stringStop (opening : Nat) (verbatim : Bool) (bytes : List UInt8) (pos : Nat) : Nat × Bool :=
  quotedStop '"' opening verbatim bytes pos

/-- Where a character literal ends. -/
def charStop (bytes : List UInt8) (pos : Nat) : Nat × Bool := quotedStop '\'' 1 false bytes pos

/-! ## Numbers -/

/-- The end of the bytes of the class from the offset on. -/
def runStop (p : Char → Bool) (bytes : List UInt8) (stop : Nat) : Nat :=
  if _ : stop < bytes.length then
    if standsAt p bytes stop then runStop p bytes (stop + 1) else stop
  else stop
termination_by bytes.length - stop

/-- Where a fraction ends that starts at the offset, and whether there is one. -/
def fractionStop (bytes : List UInt8) (stop : Nat) : Nat × Bool :=
  if standsAt (· == '.') bytes stop && standsAt Char.isDigit bytes (stop + 1) then
    (runStop isDigitOrGap bytes (stop + 1), true)
  else (stop, false)

/-- Where an exponent ends that starts at the offset, and whether there is one. -/
def exponentStop (bytes : List UInt8) (stop : Nat) : Nat × Bool :=
  if standsAt (fun c => c == 'e' || c == 'E') bytes stop then
    let digits :=
      if standsAt (fun c => c == '+' || c == '-') bytes (stop + 1) then stop + 2 else stop + 1
    if standsAt Char.isDigit bytes digits then (runStop Char.isDigit bytes digits, true)
    else (stop, false)
  else (stop, false)

/-- Where the digits of a decimal number end, and whether they have a fraction or an exponent. -/
def decimalStop (bytes : List UInt8) (pos : Nat) : Nat × Bool :=
  let (digits, fraction) := fractionStop bytes (runStop isDigitOrGap bytes pos)
  let (stop, exponent) := exponentStop bytes digits
  (stop, fraction || exponent)

/-- Where the suffix letters end, and whether one of them, or what is known already, makes the
literal a real number. -/
def suffixStop (bytes : List UInt8) (stop : Nat) (real : Bool) : Nat × Bool :=
  if _ : stop < bytes.length then
    if standsAt Char.isAlpha bytes stop then
      suffixStop bytes (stop + 1) (real || standsAt isRealSuffix bytes stop)
    else (stop, real)
  else (stop, real)
termination_by bytes.length - stop

/-- Where a number ends, and of which kind it is. -/
def numberStop (bytes : List UInt8) (pos : Nat) : Nat × Kind :=
  let hex := standsAt (· == '0') bytes pos &&
    standsAt (fun c => c == 'x' || c == 'X') bytes (pos + 1)
  let (digits, fractional) :=
    if hex then (runStop (fun c => isHexDigit c || c == '_') bytes (pos + 2), false)
    else decimalStop bytes pos
  let (stop, real) := suffixStop bytes digits fractional
  (stop, if !hex && real then .realLiteral else .intLiteral)

end CodeMend.Bytes
