/-!
# Text in ASCII

A quoted text can be sent where only ASCII passes: every other character is written as the escapes of
its units of UTF-16, with four hexadecimal digits each.
-/

namespace CodeMend.Text

/-- The escape of a unit of UTF-16. -/
def unitEscape (n : Nat) : String :=
  let digits := Nat.toDigits 16 n
  "\\u" ++ String.ofList (List.replicate (4 - digits.length) '0' ++ digits)

/-- A character in ASCII. -/
def asciiEscape (c : Char) : String :=
  if c.toNat < 0x7f then c.toString
  else if c.toNat < 0x10000 then unitEscape c.toNat
  else
    let n := c.toNat - 0x10000
    unitEscape (0xD800 + n / 0x400) ++ unitEscape (0xDC00 + n % 0x400)

/-- A text in ASCII. -/
def inAscii (s : String) : String := String.join (s.toList.map asciiEscape)

end CodeMend.Text
