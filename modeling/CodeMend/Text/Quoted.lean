import CodeMend.Text.Hidden

/-!
# Quoted text

Text between double quotes, with escapes for what would not be seen.  `shown` keeps every visible
character; `ascii` keeps printable ASCII only.
-/

namespace CodeMend.Text

/-- A code point as an escape: `\\u`, and its hexadecimal digits in braces. -/
def codeEscape (c : Char) : String :=
  "\\u\x7b" ++ String.ofList (Nat.toDigits 16 c.toNat) ++ "\x7d"

/-- One character of `shown`. -/
def shownChar (c : Char) : String :=
  match c with
  | '\x00' => "\\0"
  | '\t' => "\\t"
  | '\r' => "\\r"
  | '\n' => "\\n"
  | '"' => "\\\""
  | '\\' => "\\\\"
  | c => if isHidden c then codeEscape c else c.toString

/-- Text in double quotes; line breaks, quotes, backslashes and hidden characters are escaped. -/
def shown (s : String) : String := "\"" ++ String.join (s.toList.map shownChar) ++ "\""

/-- One character of `ascii`. -/
def asciiChar (c : Char) : String :=
  match c with
  | '\t' => "\\t"
  | '\r' => "\\r"
  | '\n' => "\\n"
  | '\'' => "\\'"
  | '"' => "\\\""
  | '\\' => "\\\\"
  | c => if 0x20 ≤ c.toNat && c.toNat ≤ 0x7e then c.toString else codeEscape c

/-- Text with everything but printable ASCII escaped, and both quotes escaped too. -/
def ascii (s : String) : String := String.join (s.toList.map asciiChar)

end CodeMend.Text
