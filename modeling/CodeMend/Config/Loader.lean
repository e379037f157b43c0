import CodeMend.Config.Decode
import CodeMend.Config.Json
import CodeMend.Config.Toml
import CodeMend.Config.Yaml
import CodeMend.Failure
import CodeMend.Files.FileTree

/-!
# Finding and loading configurations

The format of a configuration file is told by its extension.  Without a file of the user's choice the
nearest one counts: each directory is searched for a list of names in turn, from where the search
starts up to the root.  A project without a configuration has the defaults.
-/

namespace CodeMend.Config

/-- A format of configuration files. -/
inductive Format where
  | toml
  | json
  | yaml
deriving DecidableEq

namespace Format

/-- The format of files with an extension. -/
def ofExtension? : String → Option Format
  | "toml" => some .toml
  | "json" => some .json
  | "jsonc" => some .json
  | "yaml" => some .yaml
  | "yml" => some .yaml
  | _ => none

/-- The data of a text in the format. -/
def read? : Format → String → Option Data
  | .toml => Toml.read?
  | .json => Json.read?
  | .yaml => Yaml.read?

/-- What the format lets stand for other things. -/
def dialect : Format → Dialect
  | .toml => .toml
  | .json => .json
  | .yaml => .yaml

/-- The configuration that a text in the format holds. -/
def config? (f : Format) (text : String) : Option Config := (f.read? text).bind (ofData? f.dialect)

end Format

/-- The names of configuration files, the preferred ones first. -/
def fileNames : List String :=
  [".patchworkrc.toml", ".patchworkrc.json", "patchwork.jsonc", "patchwork.json", "patchwork.yaml"]

/-- Loads a file.  That the file cannot be read is found before anything else. -/
def load (t : FileTree) (p : Path) : Except Failure Config :=
  let refuse (why : String) : Except Failure Config :=
    .error (.config ("Failed to load config from '" ++ t.full p ++ "': " ++ why))
  match t.read? p with
  | none => .error (.io (t.full p) "the file cannot be read")
  | some text =>
    match p.extension?.bind Format.ofExtension? with
    | none => refuse "unsupported file extension (expected .toml, .json, .jsonc, .yaml or .yml)"
    | some format =>
      match format.config? text with
      | none => refuse "the content is not a valid configuration"
      | some c => .ok c

/-- A directory and those it lies in, the nearest first. -/
def upward (names : List String) : List (List String) :=
  (List.range (names.length + 1)).map fun n => names.take (names.length - n)

/-- Finds the nearest configuration file, from a directory or a file on. -/
def discover (t : FileTree) (start : Path) : Except Failure (Option Path) :=
  match t.resolve? start with
  | none => .error (.config ("Invalid path: " ++ t.full start))
  | some .outside => .ok none
  | some (.below names) =>
    let candidates := (upward names).flatMap fun dir => fileNames.map fun name => dir ++ [name]
    let found := candidates.find? fun names => (t.content? names).isSome
    .ok (found.map fun names => ⟨String.intercalate "/" names⟩)

/-- Loads the file of the user's choice, which has to exist, or the nearest one. -/
def loadNearest (t : FileTree) (chosen : Option Path) (start : Path) : Except Failure Config := do
  match chosen with
  | some p =>
    if (t.resolve? p).isNone then .error (.config ("Config file not found: " ++ t.full p))
    else load t p
  | none =>
    match ← discover t start with
    | some p => load t p
    | none => .ok {}

end CodeMend.Config
