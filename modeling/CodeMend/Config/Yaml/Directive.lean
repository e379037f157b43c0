import CodeMend.Config.Yaml.Tag

/-!
# Directives

Lines before a document that say something about it: the version of the format, and what the handles
of tags stand for.  Together they are the `Prologue` of the document.
-/

namespace CodeMend.Config.Yaml

/-- A line that says something about a document. -/
inductive Directive where
  | version (major minor : Nat)
  /-- What a handle stands for. -/
  | handle (name : String) (start : List UInt8)
deriving DecidableEq

namespace Directive

/-- A number of at most nine digits, and what follows it. -/
def number? (cs : List Char) : Option (Nat × List Char) := do
  let (ds, rest) := cs.span Char.isDigit
  guard (ds.length ≤ 9)
  some (← Data.ofDigits? 10 ds, rest)

/-- A version, and what follows it. -/
def version? (cs : List Char) : Option (Directive × List Char) := do
  let (major, rest) ← number? cs
  match rest with
  | '.' :: rest =>
    let (minor, rest) ← number? rest
    some (.version major minor, rest)
  | _ => none

/-- A handle and what it stands for, and what follows them. -/
def handle? (cs : List Char) : Option (Directive × List Char) := do
  guard (cs.head? == some '!')
  let name := handleText cs
  guard (name.getLast? == some '!')
  let rest := cs.drop name.length
  guard (rest.head?.any isBlank)
  let (start, rest) ← someTagText? true (rest.dropWhile isBlank)
  guard (endsWord rest)
  some (.handle (.ofList name) start, rest)

/-- A directive behind its percent sign, and what follows it on the line. -/
def read? (cs : List Char) : Option (Directive × List Char) := do
  let (name, rest) := cs.span isNameChar
  guard (endsWord rest)
  match String.ofList name with
  | "YAML" => version? (rest.dropWhile isBlank)
  | "TAG" => handle? (rest.dropWhile isBlank)
  | _ => none

end Directive

/-- What is known about a document before it starts. -/
structure Prologue where
  /-- Is the version given? -/
  versioned : Bool := false
  /-- What handles stand for. -/
  handles : List (String × List UInt8) := []

namespace Prologue

/-- Takes a directive into account.  Nothing is said twice, and only the versions 1.1 and 1.2 are
known. -/
def add? (p : Prologue) : Directive → Option Prologue
  | .version major minor =>
    if !p.versioned && major == 1 && (minor == 1 || minor == 2) then
      some { p with versioned := true }
    else none
  | .handle name start =>
    if (p.handles.lookup name).isSome then none
    else some { p with handles := p.handles ++ [(name, start)] }

/-- What handles stand for unless the document says otherwise. -/
def standardHandles : List (String × List UInt8) :=
  [("!", Tag.bare.octets), ("!!", Tag.octetsOf Tag.standardSpace)]

/-- The tag that a mark stands for; nothing if its handle is unknown. -/
def tag? (p : Prologue) (mark : TagMark) : Option Tag :=
  if mark.handle.isEmpty then some ⟨mark.suffix⟩
  else ((p.handles ++ standardHandles).lookup mark.handle).map fun start => ⟨start ++ mark.suffix⟩

end Prologue

end CodeMend.Config.Yaml
