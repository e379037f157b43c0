import CodeMend.Config.Data
import CodeMend.Config.Settings

/-!
# Writing settings

A configuration as data.  Parts that are absent are left out; within a part that is present, absent
settings are written as `null`.
-/

namespace CodeMend

open Config (Data)

/-- Indentation settings as data. -/
def FormatterSettings.toData (f : FormatterSettings) : Data :=
  .table
    [("indentStyle", (f.indentStyle.map fun s => .text s.label).getD .null),
     ("indentSize", (f.indentSize.map fun n => .int n.toNat).getD .null)]

/-- Fix settings as data. -/
def FixSettings.toData (f : FixSettings) : Data :=
  .table [("validateSyntax", (f.validateSyntax.map .bool).getD .null)]

/-- A configuration as data. -/
def Config.toData (c : Config) : Data :=
  let parts : List (String × Option Data) :=
    [("$schema", c.schema.map .text),
     ("rules", c.rules.map fun es => .table (es.map fun e => (e.1, .text e.2.label))),
     ("options", c.options.map fun es => .table (es.map fun e => (e.1, .text e.2))),
     ("formatter", c.formatter.map FormatterSettings.toData),
     ("fixes", c.fixes.map FixSettings.toData)]
  .table (parts.filterMap fun p => p.2.map (p.1, ·))

end CodeMend
