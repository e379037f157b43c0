import CodeMend.Config.Data

/-!
# Decimal numbers

A number as digits and a power of ten.  Readers of configuration files round such a number to the
nearest floating point number of 64 bits, and tell whether that is finite.
-/

namespace CodeMend.Config

/-- The number `mantissa · 10 ^ exponent`. -/
structure Decimal where
  mantissa : Nat
  exponent : Int

namespace Decimal

/-- The least number that is rounded to infinity: half a step above the largest finite floating point
number, a step being 2 to the power of 971. -/
def floatBound : Nat := (1 <<< 1024) - (1 <<< 970)

/-- An upper bound of the power of ten that the number is below. -/
def magnitude (d : Decimal) : Int := d.exponent + (Nat.toDigits 10 d.mantissa).length

/-- Is the number rounded to infinity?  Far away from the bound its magnitude tells. -/
def overflows (d : Decimal) : Bool :=
  if d.mantissa == 0 || d.magnitude < 300 then false
  else if 400 < d.magnitude then true
  else match d.exponent with
    | .ofNat e => decide (floatBound ≤ d.mantissa * Nat.pow 10 e)
    | .negSucc e => decide (floatBound * Nat.pow 10 (e + 1) ≤ d.mantissa)

/-- The whole part of the nearest floating point number, cut to the bound of natural numbers; `none`
if it is infinite. -/
def wholePart? (d : Decimal) : Option Nat :=
  if d.overflows then none
  else if d.mantissa == 0 || d.magnitude < 0 then some 0
  else
    let f := match d.exponent with
      | .ofNat e => Float.ofScientific d.mantissa false e
      | .negSucc e => Float.ofScientific d.mantissa true (e + 1)
    some f.toUInt64.toNat

end Decimal

end CodeMend.Config
