/-!
# Settings

The configuration of a project: how severe each rule is, options that rules read, how lines are
indented and how fixes are checked.  Every part may be absent, and absent parts have defaults.
-/

namespace CodeMend

/-- How severe a rule is set to be. -/
inductive RuleSeverity where
  | off
  | info
  | warn
  | error
deriving DecidableEq

namespace RuleSeverity

/-- All settings. -/
def all : List RuleSeverity := [.off, .info, .warn, .error]

/-- The word for a setting. -/
def label : RuleSeverity → String
  | .off => "off"
  | .info => "info"
  | .warn => "warn"
  | .error => "error"

/-- The setting for a word. -/
def ofLabel? (s : String) : Option RuleSeverity := all.find? (·.label == s)

end RuleSeverity

/-- What lines are indented with. -/
inductive IndentStyle where
  | spaces
  | tabs
deriving DecidableEq

namespace IndentStyle

/-- The word for a style. -/
def label : IndentStyle → String
  | .spaces => "spaces"
  | .tabs => "tabs"

/-- The style for a word. -/
def ofLabel? : String → Option IndentStyle
  | "spaces" => some .spaces
  | "tabs" => some .tabs
  | _ => none

end IndentStyle

/-- How lines are indented. -/
structure FormatterSettings where
  indentStyle : Option IndentStyle
  /-- Columns for each level. -/
  indentSize : Option UInt64
deriving DecidableEq

namespace FormatterSettings

/-- The indentation style; spaces if none is set. -/
def style (f : FormatterSettings) : IndentStyle := f.indentStyle.getD .spaces

/-- The columns for each level; four if none or zero is set. -/
def level (f : FormatterSettings) : UInt64 := (f.indentSize.filter (0 < ·)).getD 4

/-- The columns for each level as a number. -/
def size (f : FormatterSettings) : Nat := f.level.toNat

/-- Four spaces. -/
def standard : FormatterSettings := ⟨some .spaces, some 4⟩

end FormatterSettings

/-- How fixes are checked. -/
structure FixSettings where
  /-- Refuse a fix whose result has more syntax errors than what it was applied to. -/
  validateSyntax : Option Bool
deriving DecidableEq

namespace FixSettings

/-- Is the result of a fix checked?  It is unless that is switched off. -/
def validates (f : FixSettings) : Bool := f.validateSyntax.getD true

/-- With the check. -/
def standard : FixSettings := ⟨some true⟩

end FixSettings

/-- The configuration of a project. -/
structure Config where
  /-- Where the schema of the configuration is; not read. -/
  schema : Option String := none
  /-- Severity by rule. -/
  rules : Option (List (String × RuleSeverity)) := none
  /-- What rules read. -/
  options : Option (List (String × String)) := none
  formatter : Option FormatterSettings := none
  fixes : Option FixSettings := none
deriving DecidableEq

namespace Config

/-- How lines are indented. -/
def formatterSettings (c : Config) : FormatterSettings := c.formatter.getD .standard

/-- How fixes are checked. -/
def fixSettings (c : Config) : FixSettings := c.fixes.getD .standard

/-- The severity set for a rule. -/
def ruleSeverity? (c : Config) (id : String) : Option RuleSeverity := c.rules.bind (·.lookup id)

/-- An option that a rule reads. -/
def option? (c : Config) (key : String) : Option String := c.options.bind (·.lookup key)

end Config

end CodeMend
