import CodeMend.Config.Decimal

/-!
# Numbers

Whole numbers are decimal, hexadecimal, octal or binary; other numbers have a fraction or an exponent.
Underscores may stand between digits.
-/

namespace CodeMend.Config.Toml

/-- Digits without the underscores between them. -/
def plainDigits? (isDigit : Char → Bool) (cs : List Char) : Option (List Char) :=
  let isPlaced (before c after : Option Char) : Bool :=
    if c == some '_' then before.any isDigit && after.any isDigit else c.any isDigit
  let befores := none :: cs.map some
  let afters := (cs.drop 1).map some ++ [none]
  let placed := (befores.zip ((cs.map some).zip afters)).all fun t => isPlaced t.1 t.2.1 t.2.2
  if !cs.isEmpty && placed then some (cs.filter (· != '_')) else none

/-- The digits of a decimal number, without a zero before others. -/
def decimalDigits? (cs : List Char) : Option (List Char) := do
  match ← plainDigits? Char.isDigit cs with
  | '0' :: _ :: _ => none
  | ds => some ds

/-- A number without its sign. -/
def dropSign : List Char → Int × List Char
  | '-' :: cs => (-1, cs)
  | '+' :: cs => (1, cs)
  | cs => (1, cs)

/-- A whole number. -/
def int? (cs : List Char) : Option Int :=
  let based (base : Nat) (cs : List Char) : Option Int := do
    let n ← Data.ofDigits? base (← plainDigits? (fun c => (Data.digit? base c).isSome) cs)
    some n
  match cs with
  | '0' :: 'x' :: cs => based 16 cs
  | '0' :: 'o' :: cs => based 8 cs
  | '0' :: 'b' :: cs => based 2 cs
  | cs => do
    let (sign, body) := dropSign cs
    let n ← Data.ofDigits? 10 (← decimalDigits? body)
    some (sign * n)

/-- A whole number as a value; numbers of more than 128 bits are too large. -/
def intData (n : Int) : Data :=
  if -170141183460469231731687303715884105728 ≤ n
      && n < 340282366920938463463374607431768211456 then .int n
  else .beyond none

/-- A number with a fraction or an exponent, without its sign. -/
def decimal? (cs : List Char) : Option Decimal := do
  let (mantissa, exponent) := cs.span fun c => c != 'e' && c != 'E'
  let (whole, fraction) := mantissa.span (· != '.')
  let whole ← decimalDigits? whole
  let fraction ← match fraction with
    | [] => if exponent.isEmpty then none else some []
    | _ :: digits => plainDigits? Char.isDigit digits
  let power ← match exponent with
    | [] => some 0
    | _ :: rest =>
      let (sign, digits) := dropSign rest
      ((plainDigits? Char.isDigit digits).bind (Data.ofDigits? 10)).map fun n => sign * n
  some ⟨← Data.ofDigits? 10 (whole ++ fraction), power - fraction.length⟩

/-- A number that is not whole as a value, infinite or not a number among them. -/
def realData? (cs : List Char) : Option Data :=
  let (_, body) := dropSign cs
  if body == "inf".toList || body == "nan".toList then some .foreign
  else (decimal? body).map fun d => if d.overflows then .beyond none else .foreign

end CodeMend.Config.Toml
