import CodeMend.Config.Toml.Moment
import CodeMend.Config.Toml.Number
import CodeMend.Config.Toml.Table
import CodeMend.Config.Toml.Text

/-!
# Configuration as TOML

A document is a list of statements: a key with a value, the header of a table, or the header of one
more table of a list.  Keys may be dotted, which makes tables on the way.
-/

namespace CodeMend.Config.Toml

/-! ## Values -/

/-- A scalar that is no string. -/
def scalar? (cs : List Char) : Option Data :=
  if cs == "true".toList then some (.bool true)
  else if cs == "false".toList then some (.bool false)
  else match int? cs with
    | some n => some (intData n)
    | none => (realData? cs).or ((moment? cs).map Moment.data)

/-- Characters of scalars without quotes. -/
def isScalar (c : Char) : Bool := c.isAlphanum || "+-_.:".toList.contains c

/-- The characters of a scalar, and what follows.  A blank may stand between a date and a time. -/
def scalarText (cs : List Char) : List Char × List Char :=
  let (first, rest) := cs.span isScalar
  match rest with
  | ' ' :: more =>
    let (second, after) := more.span isScalar
    if (date? first).any (·.2.isEmpty) && (time? second).isSome then
      (first ++ ' ' :: second, after)
    else (first, rest)
  | rest => (first, rest)

/-- How deep lists and tables in braces may be nested. -/
def nesting : Nat := 80

mutual

/-- A value, and what follows it.  `room` is how much deeper lists and tables may be nested, and twice
the number of characters is enough fuel. -/
def value? : Nat → Nat → List Char → Option (Data × List Char)
  | 0, _, _ => none
  | fuel + 1, room, cs =>
    match cs, room with
    | '"' :: rest, _ => (string? '"' rest).map fun r => (.text r.1, r.2)
    | '\'' :: rest, _ => (string? '\'' rest).map fun r => (.text r.1, r.2)
    | '[' :: rest, room + 1 => (items? fuel room rest).map fun r => (.list r.1, r.2)
    | '\x7b' :: rest, room + 1 =>
      (members? fuel room [] rest).map fun r => (.table (dataOf r.1), r.2)
    | cs, _ =>
      let (text, rest) := scalarText cs
      (scalar? text).map (·, rest)

/-- The items of a list up to its closing bracket. -/
def items? : Nat → Nat → List Char → Option (List Data × List Char)
  | 0, _, _ => none
  | fuel + 1, room, cs => do
    match ← skipLines? cs.length cs with
    | ']' :: rest => some ([], rest)
    | cs =>
      let (value, rest) ← value? fuel room cs
      match ← skipLines? rest.length rest with
      | ',' :: rest => (items? fuel room rest).map fun r => (value :: r.1, r.2)
      | ']' :: rest => some ([value], rest)
      | _ => none

/-- The entries of a table in braces up to the closing one, behind those that came before.  Line
breaks and comments may stand anywhere but within a dotted key. -/
def members? : Nat → Nat → Entries → List Char → Option (Entries × List Char)
  | 0, _, _, _ => none
  | fuel + 1, room, entries, cs => do
    match ← skipLines? cs.length cs with
    | '\x7d' :: rest => some (entries, rest)
    | cs =>
      let (keys, rest) ← keys? (cs.length + 1) cs
      let rest ← after? '=' (← skipLines? rest.length rest)
      let (value, rest) ← value? fuel room (← skipLines? rest.length rest)
      let entries ← setPath keys value entries
      match ← skipLines? rest.length rest with
      | ',' :: rest => members? fuel room entries rest
      | '\x7d' :: rest => some (entries, rest)
      | _ => none

end

/-! ## Documents -/

/-- A document under way: all entries, and the path of the table that keys go into. -/
structure Progress where
  root : Entries := []
  here : List String := []

/-- The document after a header. -/
def header? (p : Progress) (cs : List Char) : Option (Progress × List Char) :=
  match cs with
  | '[' :: rest => do
    let (keys, rest) ← keys? (rest.length + 1) rest
    let rest ← after? ']' (← after? ']' rest)
    some (⟨← openItem keys p.root, keys⟩, rest)
  | cs => do
    let (keys, rest) ← keys? (cs.length + 1) cs
    let rest ← after? ']' rest
    some (⟨← openTable keys p.root, keys⟩, rest)

/-- The document after a key with its value. -/
def assignment? (p : Progress) (cs : List Char) : Option (Progress × List Char) := do
  let (keys, rest) ← keys? (cs.length + 1) cs
  let rest ← after? '=' rest
  let (value, rest) ← value? (2 * rest.length + 1) nesting (skipBlanks rest)
  some ({ p with root := ← within false (setPath keys value) p.here p.root }, rest)

/-- The document after all statements.  One more than the number of characters is enough fuel. -/
def statements? : Nat → Progress → List Char → Option Progress
  | 0, _, _ => none
  | fuel + 1, p, cs => do
    match skipBlanks cs with
    | [] => some p
    | '#' :: rest => statements? fuel p (← endLine? ('#' :: rest))
    | '[' :: rest =>
      let (p, rest) ← header? p rest
      statements? fuel p (← endLine? rest)
    | c :: rest =>
      match lineBreak? (c :: rest) with
      | some rest => statements? fuel p rest
      | none =>
        let (p, rest) ← assignment? p (c :: rest)
        statements? fuel p (← endLine? rest)

/-- The table of a whole text. -/
def read? (text : String) : Option Data := do
  let cs := match text.toList with
    | '\ufeff' :: cs => cs
    | cs => cs
  let p ← statements? (cs.length + 1) {} cs
  some (.table (dataOf p.root))

end CodeMend.Config.Toml
