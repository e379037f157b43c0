import CodeMend.Config.Settings
import CodeMend.Text.Replace

/-!
# What rules report

A `Descriptor` describes one kind of diagnostic once and for all: its id, its wording and how severe
it is by default.
-/

namespace CodeMend

/-- How severe a diagnostic is. -/
inductive Severity where
  /-- Shown to no one, but its fix is offered. -/
  | hidden
  | info
  | warning
  | error
deriving DecidableEq

namespace Severity

/-- The word for a severity. -/
def label : Severity → String
  | .hidden => "hidden"
  | .info => "info"
  | .warning => "warning"
  | .error => "error"

/-- The severity that a setting asks for; none if the rule is off. -/
def ofRule? : RuleSeverity → Option Severity
  | .off => none
  | .info => some .info
  | .warn => some .warning
  | .error => some .error

end Severity

/-- One kind of diagnostic. -/
structure Descriptor where
  id : String
  title : String
  /-- The wording, with numbered places for arguments. -/
  messageFormat : String
  category : String
  severity : Severity
  enabledByDefault : Bool := true
deriving DecidableEq

namespace Descriptor

/-- The mark for the argument of the given number. -/
def placeholder (n : Nat) : String := "\x7b" ++ toString n ++ "\x7d"

/-- Fills in the arguments from the given number on, one after the other. -/
def fill : Nat → List String → String → String
  | _, [], message => message
  | n, a :: rest, message => fill (n + 1) rest (Text.replaceAll (placeholder n) a message)

/-- The message with its arguments. -/
def format (d : Descriptor) (arguments : List String) : String := fill 0 arguments d.messageFormat

end Descriptor

/-- What a rule tells whoever mends what it found: text by key, in the order of insertion. -/
structure Properties where
  entries : List (String × String) := []
deriving DecidableEq

namespace Properties

/-- Sets a key.  A key that is there keeps its place. -/
def insert (p : Properties) (key value : String) : Properties :=
  if p.entries.any (·.1 == key) then
    ⟨p.entries.map fun e => if e.1 == key then (key, value) else e⟩
  else ⟨p.entries ++ [(key, value)]⟩

/-- The text of a key. -/
def get? (p : Properties) (key : String) : Option String := p.entries.lookup key

/-- Is the key set? -/
def contains (p : Properties) (key : String) : Bool := (p.get? key).isSome

end Properties

end CodeMend
