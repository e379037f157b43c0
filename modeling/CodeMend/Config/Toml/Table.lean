import CodeMend.Config.Data

/-!
# Tables in the making

The tables of a document while its statements are read.  Nothing can be defined twice: neither a key,
nor a table by two headers, nor a table by a header and by dotted keys.
-/

namespace CodeMend.Config.Toml

/-- How a table came about. -/
inductive Origin where
  /-- By its own header. -/
  | header
  /-- On the way to the header of another one. -/
  | path
  /-- On the way to a dotted key. -/
  | dotted
deriving DecidableEq

/-- What a key holds. -/
inductive Node where
  /-- A value that is complete. -/
  | leaf (value : Data)
  | table (origin : Origin) (entries : List (String × Node))
  /-- The tables of a list, each with its entries. -/
  | tables (items : List (List (String × Node)))
deriving Inhabited

mutual

/-- What a node holds. -/
def Node.data : Node → Data
  | .leaf d => d
  | .table _ entries => .table (dataOf entries)
  | .tables items => .list (dataOfAll items)

/-- What entries hold. -/
def dataOf : List (String × Node) → List (String × Data)
  | [] => []
  | (k, n) :: rest => (k, n.data) :: dataOf rest

/-- What tables hold. -/
def dataOfAll : List (List (String × Node)) → List Data
  | [] => []
  | t :: ts => .table (dataOf t) :: dataOfAll ts

end

/-- The entries of a table. -/
abbrev Entries := List (String × Node)

/-- Puts another node under a key that is there. -/
def replace (entries : Entries) (key : String) (node : Node) : Entries :=
  entries.map fun e => if e.1 == key then (key, node) else e

/-- Changes the table at the end of a path, and makes the tables on the way that are not there.  A
path leads through a list of tables into the last of them.  A dotted key does not reach into tables
with a header, and ends in a table made by dotted keys. -/
def within (isDotted : Bool) (change : Entries → Option Entries) :
    List String → Entries → Option Entries
  | [], entries => change entries
  | k :: ks, entries =>
    match entries.lookup k with
    | none => do
      let sub ← within isDotted change ks []
      some (entries ++ [(k, .table (if isDotted then .dotted else .path) sub)])
    | some (.table origin sub) =>
      if isDotted && (origin == .header || (origin == .path && ks.isEmpty)) then none
      else (within isDotted change ks sub).map fun sub => replace entries k (.table origin sub)
    | some (.tables items) => do
      let last ← if isDotted && ks.isEmpty then none else items.getLast?
      let sub ← within isDotted change ks last
      some (replace entries k (.tables (items.dropLast ++ [sub])))
    | some (.leaf _) => none

/-- Sets a key, which must be new. -/
def setKey (key : String) (value : Data) (entries : Entries) : Option Entries :=
  if (entries.lookup key).isSome then none else some (entries ++ [(key, .leaf value)])

/-- Sets a dotted key. -/
def setPath (keys : List String) (value : Data) (entries : Entries) : Option Entries := do
  let key ← keys.getLast?
  within true (setKey key value) keys.dropLast entries

/-- Opens the table of a header. -/
def openTable (keys : List String) (root : Entries) : Option Entries := do
  let key ← keys.getLast?
  within false (fun entries =>
    match entries.lookup key with
    | none => some (entries ++ [(key, .table .header [])])
    | some (.table .path sub) => some (replace entries key (.table .header sub))
    | _ => none) keys.dropLast root

/-- Opens one more table of a list. -/
def openItem (keys : List String) (root : Entries) : Option Entries := do
  let key ← keys.getLast?
  within false (fun entries =>
    match entries.lookup key with
    | none => some (entries ++ [(key, .tables [[]])])
    | some (.tables items) => some (replace entries key (.tables (items ++ [[]])))
    | _ => none) keys.dropLast root

end CodeMend.Config.Toml
