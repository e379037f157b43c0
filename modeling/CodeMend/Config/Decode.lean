import CodeMend.Config.Data
import CodeMend.Config.Settings
import CodeMend.Semantic.Catalog

/-!
# Reading settings

Settings and catalogs of referenced types, read from the data of a file in the dialect of its format.
A value of the wrong shape anywhere spoils the whole.
-/

namespace CodeMend

open Config (Data Dialect)

namespace FormatterSettings

/-- Indentation settings. -/
def ofData? (dialect : Dialect) (d : Data) : Option FormatterSettings := do
  match ← d.asRecord dialect 2 ["indentStyle", "indentSize"] with
  | [style, size] =>
    some ⟨← (style.getD .null).asOptional (fun d => (d.asWord dialect).bind IndentStyle.ofLabel?),
      ← (size.getD .null).asOptional fun d => d.asNat.map UInt64.ofNat⟩
  | _ => none

end FormatterSettings

namespace FixSettings

/-- Fix settings. -/
def ofData? (dialect : Dialect) (d : Data) : Option FixSettings := do
  match ← d.asRecord dialect 1 ["validateSyntax"] with
  | [validate] => some ⟨← (validate.getD .null).asOptional Data.asBool⟩
  | _ => none

end FixSettings

namespace Config

/-- The configuration of a project. -/
def ofData? (dialect : Dialect) (d : Data) : Option Config := do
  match ← d.asRecord dialect 5 ["$schema", "rules", "options", "formatter", "fixes"] with
  | [schema, rules, options, formatter, fixes] =>
    let severity := fun (d : Data) => (d.asWord dialect).bind RuleSeverity.ofLabel?
    some
      { schema := ← (schema.getD .null).asOptional Data.asText
        rules := ← (rules.getD .null).asOptional (Data.asTable severity)
        options := ← (options.getD .null).asOptional (Data.asTable Data.asText)
        formatter := ← (formatter.getD .null).asOptional (FormatterSettings.ofData? dialect)
        fixes := ← (fixes.getD .null).asOptional (FixSettings.ofData? dialect) }
  | _ => none

end Config

namespace ReferenceMethod

/-- A method of a referenced type. -/
def ofData? (dialect : Dialect) (d : Data) : Option ReferenceMethod := do
  match ← d.asRecord dialect 1 ["name", "is_static", "parameters", "return_type"] with
  | [name, isStatic, parameters, returnType] =>
    some
      { name := ← name.bind Data.asText
        isStatic := ← (isStatic.getD (.bool false)).asBool
        parameters := ← (parameters.getD (.list [])).asList Data.asText
        returnType := ← (returnType.getD .null).asOptional Data.asText }
  | _ => none

end ReferenceMethod

namespace ReferenceType

/-- A referenced type. -/
def ofData? (dialect : Dialect) (d : Data) : Option ReferenceType := do
  match ← d.asRecord dialect 2 ["namespace", "name", "is_reference_type", "methods"] with
  | [space, name, isReference, methods] =>
    some
      { space := ← space.bind Data.asText
        name := ← name.bind Data.asText
        isReference := ← (isReference.getD (.bool true)).asBool
        methods := ← (methods.getD (.list [])).asList (ReferenceMethod.ofData? dialect) }
  | _ => none

end ReferenceType

namespace Catalog

/-- A catalog of referenced types. -/
def ofData? (dialect : Dialect) (d : Data) : Option Catalog := do
  match ← d.asRecord dialect 1 ["types"] with
  | [types] => some ⟨← types.bind (Data.asList (ReferenceType.ofData? dialect))⟩
  | _ => none

end Catalog

end CodeMend
