import CodeMend.Config.Settings
import CodeMend.Config.Data

/-!
# The schema of configuration files

A document in JSON Schema that says which settings there are, for editors that check and complete
configuration files.
-/

namespace CodeMend.Config.Schema

/-- A list of words as data. -/
def words (ws : List String) : Data := .list (ws.map .text)

/-- A table with a description as its last entry. -/
def described (entries : List (String × Data)) (text : String) : Data :=
  .table (entries ++ [("description", .text text)])

/-- The entry that names a type. -/
def type (name : String) : String × Data := ("type", .text name)

/-- The entry of a type that also allows `null`. -/
def orNull (name : String) : String × Data := ("type", words [name, "null"])

/-- A reference to a definition of the document. -/
def ref (name : String) : Data := .table [("$ref", .text ("#/$defs/" ++ name))]

/-- A definition of the document or `null`. -/
def refOrNull (name : String) : String × Data := ("anyOf", .list [ref name, .table [type "null"]])

/-- An object with the given properties. -/
def object (properties : List (String × Data)) : List (String × Data) :=
  [type "object", ("properties", .table properties)]

/-- What the document as a whole is for, with an example. -/
def purpose : String :=
  "Root configuration document\n\n```toml\n[rules]\nRCS1031 = \"warn\"\nRCS0063 = \"off\"\n\n"
    ++ "[options]\nblank_line_between_switch_sections = \"omit_after_block\"\n\n"
    ++ "[formatter]\nindentStyle = \"spaces\"\nindentSize = 4\n```"

/-- How severe a rule is. -/
def ruleSeverity : Data :=
  described
    [("oneOf", .list
      [.table [type "string", ("enum", words ([.info, .warn, .error].map RuleSeverity.label))],
       described [type "string", ("const", .text RuleSeverity.off.label)] "Disable the rule"])]
    "Rule severity levels"

/-- What lines are indented with. -/
def indentStyle : Data :=
  described [type "string", ("enum", words ([.spaces, .tabs].map IndentStyle.label))]
    "Indent style for the formatter pass"

/-- How lines are indented. -/
def formatter : Data :=
  described (object
    [("indentStyle", described [refOrNull "IndentStyle"] "Indentation style: 'spaces' or 'tabs'"),
     ("indentSize", described [orNull "integer", ("format", .text "uint"), ("minimum", .int 0)]
       "Columns per indentation level")])
    "Formatter configuration"

/-- How fixes are checked. -/
def fixes : Data :=
  described (object
    [("validateSyntax",
      described [orNull "boolean"] "Reject fixes that introduce syntax errors")])
    "Fix application settings"

/-- The parts of a configuration. -/
def parts : List (String × Data) :=
  [("$schema", described [orNull "string"] "JSON schema reference, ignored by the loader"),
   ("rules", described [orNull "object", ("additionalProperties", ref "RuleSeverity")]
     "Severity per diagnostic id: off, info, warn or error"),
   ("options", described [orNull "object", ("additionalProperties", .table [type "string"])]
     "Rule style options, e.g. blank_line_between_switch_sections"),
   ("formatter", .table [refOrNull "FormatterConfiguration"]),
   ("fixes", .table [refOrNull "FixConfiguration"])]

/-- The whole document. -/
def document : Data :=
  .table (object parts ++
    [("description", .text purpose),
     ("title", .text "patchwork configuration"),
     ("$schema", .text "https://json-schema.org/draft/2020-12/schema"),
     ("$defs", .table
       [("RuleSeverity", ruleSeverity),
        ("FormatterConfiguration", formatter),
        ("IndentStyle", indentStyle),
        ("FixConfiguration", fixes)])])

end CodeMend.Config.Schema
