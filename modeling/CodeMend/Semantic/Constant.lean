import CodeMend.Syntax.Kind
import CodeMend.Text.Quoted
import CodeMend.Text.Replace

/-!
# Constants

The values that expressions have before the program runs.  Integers are words of 64 bits with a
sign.  Arithmetic is exact: an operation whose result does not fit has no value.  Bitwise operators
act on the bits of the word.
-/

namespace CodeMend

/-- A value known before the program runs. -/
inductive Constant where
  | int (value : Int64)
  | bool (value : Bool)
  | char (value : Char)
  | string (value : String)
  | null
deriving DecidableEq

namespace Constant

/-- The value of an integer. -/
def asInt? : Constant → Option Int64
  | int n => some n
  | _ => none

/-- The value of a truth value. -/
def asBool? : Constant → Option Bool
  | bool b => some b
  | _ => none

/-- A constant as it is written in a program. -/
def source : Constant → String
  | int n => toString n.toInt
  | bool b => if b then "true" else "false"
  | char c => "'" ++ Text.asciiChar c ++ "'"
  | string s => "\"" ++ Text.ascii s ++ "\""
  | null => "null"

/-! ## Literals -/

/-- The value of a digit in the given base. -/
def digit? (base : Nat) (c : Char) : Option Nat :=
  let n :=
    if c.isDigit then c.toNat - '0'.toNat
    else if 'a' ≤ c ∧ c ≤ 'f' then c.toNat - 'a'.toNat + 10
    else if 'A' ≤ c ∧ c ≤ 'F' then c.toNat - 'A'.toNat + 10
    else base
  if n < base then some n else none

/-- Digits without the plus sign that may stand before them. -/
def unsigned : List Char → List Char
  | '+' :: cs => cs
  | cs => cs

theorem unsigned_eq_self {cs : List Char} (h : '+' ∉ cs) : unsigned cs = cs := by
  fun_cases unsigned cs with
  | case1 cs => exact absurd List.mem_cons_self h
  | case2 => rfl

/-- The value of one or more digits. -/
def digits? (base : Nat) (cs : List Char) : Option Nat :=
  if (unsigned cs).isEmpty then none
  else (unsigned cs).foldlM (fun n c => (digit? base c).map (base * n + ·)) 0

/-- A suffix that says which integer type is meant. -/
def isIntSuffix (c : Char) : Bool := c == 'u' || c == 'U' || c == 'l' || c == 'L'

/-- An integer if it fits the word. -/
def checked (n : Int) : Option Int64 :=
  if Int64.minValue.toInt ≤ n ∧ n ≤ Int64.maxValue.toInt then some (.ofInt n) else none

/-- A number is given to the word that has it. -/
theorem checked_iff {x : Int} {n : Int64} : checked x = some n ↔ n.toInt = x := by
  unfold checked
  rw [Int64.toInt_minValue, Int64.toInt_maxValue]
  constructor
  · intro h
    split at h
    · next hrange =>
      obtain rfl := Option.some.inj h
      exact Int64.toInt_ofInt_of_le hrange.1 (by omega)
    · exact absurd h (by simp)
  · rintro rfl
    have hle := Int64.le_toInt n
    have hlt := Int64.toInt_lt n
    rw [if_pos ⟨hle, by omega⟩, Int64.ofInt_toInt]

/-- An integer literal: decimal, hexadecimal or binary, with underscores between the digits and a
suffix for its type. -/
def readInt? (text : String) : Option Int64 :=
  let body := (text.toList.reverse.dropWhile isIntSuffix).reverse
  let value := match body.filter (· != '_') with
    | '0' :: 'x' :: cs => digits? 16 cs
    | '0' :: 'X' :: cs => digits? 16 cs
    | '0' :: 'b' :: cs => digits? 2 cs
    | '0' :: 'B' :: cs => digits? 2 cs
    | cs => digits? 10 cs
  value.bind (fun n => checked n)

/-- The character that an escape stands for. -/
def escaped? : Char → Option Char
  | 'n' => some '\n'
  | 't' => some '\t'
  | 'r' => some '\r'
  | '0' => some '\x00'
  | '\\' => some '\\'
  | '"' => some '"'
  | '\'' => some '\''
  | _ => none

/-- Text with its escapes replaced; `none` if one is unknown. -/
def unescape? : List Char → Option (List Char)
  | [] => some []
  | '\\' :: [] => none
  | '\\' :: c :: cs => do return (← escaped? c) :: (← unescape? cs)
  | c :: cs => (unescape? cs).map (c :: ·)

/-- Text without the given character at its end. -/
def dropEnd? (quote : Char) (cs : List Char) : Option (List Char) :=
  match cs.reverse with
  | c :: rest => if c == quote then some rest.reverse else none
  | [] => none

/-- A string literal; in a verbatim one a quote is written twice and there are no escapes. -/
def readString? (text : String) : Option String :=
  match text.toList with
  | '@' :: '"' :: cs =>
    (dropEnd? '"' cs).map fun body => Text.replaceAll "\"\"" "\"" (String.ofList body)
  | '"' :: cs => ((dropEnd? '"' cs).bind unescape?).map String.ofList
  | _ => none

/-- A character literal. -/
def readChar? (text : String) : Option Char :=
  match text.toList with
  | '\'' :: cs =>
    match (dropEnd? '\'' cs).bind unescape? with
    | some [c] => some c
    | _ => none
  | _ => none

/-- The value of a literal token. -/
def ofLiteral? (kind : Kind) (text : String) : Option Constant :=
  match kind with
  | .intLiteral => (readInt? text).map int
  | .trueKw => some (bool true)
  | .falseKw => some (bool false)
  | .nullKw => some null
  | .stringLiteral => (readString? text).map string
  | .charLiteral => (readChar? text).map char
  | _ => none

/-! ## Operators -/

/-- The value of an operator before its operand. -/
def unary (operator : Kind) (a : Constant) : Option Constant :=
  match operator, a with
  | .minus, int a => (checked (-a.toInt)).map int
  | .plus, int a => some (int a)
  | .tilde, int a => some (int (~~~a))
  | .bang, bool a => some (bool !a)
  | _, _ => none

/-- The quotient, toward zero. -/
def quotient (a b : Int64) : Option Int64 :=
  if b = 0 then none else checked (a.toInt.tdiv b.toInt)

/-- The remainder, with the sign of the dividend; there is none where there is no quotient. -/
def remainder (a b : Int64) : Option Int64 := do
  let _ ← quotient a b
  checked (a.toInt.tmod b.toInt)

/-- Can a word be shifted by so many bits? -/
def isShiftCount (n : Int64) : Bool := 0 ≤ n && n < 64

/-- The bits shifted to the left; those that leave the word are lost. -/
def shiftLeft (a b : Int64) : Option Int64 := if isShiftCount b then some (a <<< b) else none

/-- The bits shifted to the right; the sign moves in. -/
def shiftRight (a b : Int64) : Option Int64 := if isShiftCount b then some (a >>> b) else none

/-- The value of an operator between integers. -/
def binaryInt (operator : Kind) (a b : Int64) : Option Constant :=
  match operator with
  | .plus => (checked (a.toInt + b.toInt)).map int
  | .minus => (checked (a.toInt - b.toInt)).map int
  | .star => (checked (a.toInt * b.toInt)).map int
  | .slash => (quotient a b).map int
  | .percent => (remainder a b).map int
  | .ltLt => (shiftLeft a b).map int
  | .amp => some (int (a &&& b))
  | .pipe => some (int (a ||| b))
  | .caret => some (int (a ^^^ b))
  | .eqEq => some (bool (a == b))
  | .bangEq => some (bool (a != b))
  | .lt => some (bool (a < b))
  | .gt => some (bool (b < a))
  | .ltEq => some (bool (a ≤ b))
  | .gtEq => some (bool (b ≤ a))
  | _ => none

/-- The value of an operator between truth values. -/
def binaryBool (operator : Kind) (a b : Bool) : Option Constant :=
  match operator with
  | .ampAmp | .amp => some (bool (a && b))
  | .pipePipe | .pipe => some (bool (a || b))
  | .caret | .bangEq => some (bool (a != b))
  | .eqEq => some (bool (a == b))
  | _ => none

/-- The value of an operator between strings. -/
def binaryString (operator : Kind) (a b : String) : Option Constant :=
  match operator with
  | .plus => some (string (a ++ b))
  | .eqEq => some (bool (a == b))
  | .bangEq => some (bool (a != b))
  | _ => none

/-- The value of an operator between its operands, which are of one type. -/
def binary (operator : Kind) : Constant → Constant → Option Constant
  | int a, int b => binaryInt operator a b
  | bool a, bool b => binaryBool operator a b
  | string a, string b => binaryString operator a b
  | _, _ => none

/-- The value of a right shift, which is written with two tokens. -/
def rightShift : Constant → Constant → Option Constant
  | int a, int b => (shiftRight a b).map int
  | _, _ => none

end Constant

end CodeMend
