import CodeMend.Diagnostic.Descriptor
import CodeMend.Semantic.Catalog

/-!
# Options of a run

What rules see of the configuration, and the referenced library they are run against.
-/

namespace CodeMend

/-- The configuration and the referenced library. -/
structure Options where
  config : Config := {}
  catalog : Catalog := .standard

namespace Options

/-- How severe a kind of diagnostic is; none if it is off.  What the configuration says wins over
the default. -/
def severity? (o : Options) (d : Descriptor) : Option Severity :=
  match o.config.ruleSeverity? d.id with
  | some s => Severity.ofRule? s
  | none => if d.enabledByDefault then some d.severity else none

/-- Is a kind of diagnostic on? -/
def isEnabled (o : Options) (d : Descriptor) : Bool := (o.severity? d).isSome

/-- An option as text. -/
def get? (o : Options) (key : String) : Option String := o.config.option? key

/-- An option as read by `read`; `fallback` if it is absent or cannot be read. -/
def readOr {α : Type} (o : Options) (key : String) (read : String → Option α) (fallback : α) : α :=
  ((o.get? key).bind read).getD fallback

/-- Decimal digits behind an optional plus sign, for a number below `bound`. -/
def readNat? (bound : Nat) (s : String) : Option Nat :=
  let digits := match s.toList with
    | '+' :: cs => cs
    | cs => cs
  if digits.isEmpty || digits.any (fun c => !c.isDigit) then none
  else
    let n := digits.foldl (fun n c => 10 * n + (c.toNat - '0'.toNat)) 0
    if n < bound then some n else none

/-- The words `true` and `false`. -/
def readBool? : String → Option Bool
  | "true" => some true
  | "false" => some false
  | _ => none

end Options

end CodeMend
