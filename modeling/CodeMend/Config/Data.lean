import CodeMend.Config.Tag

/-!
# Data of configuration files

The formats of configuration files differ in how they are written and agree in what they hold:
scalars, lists and tables.  A format may leave open what a scalar is; such a scalar keeps its text,
and is whatever the reader wants it to be.  What a format lets stand for a record or for a word is its
`Dialect`.

Each `as…` function reads one shape and gives nothing for any other.
-/

namespace CodeMend.Config

/-- How a scalar of an open type is written, as far as that narrows down what it can be. -/
inductive Style where
  /-- Without quotes. -/
  | plain
  /-- As a block of lines that keeps its line breaks. -/
  | literal
  /-- In quotes, or as a block of lines that are folded. -/
  | quoted
deriving DecidableEq

/-- A value in a configuration file. -/
inductive Data where
  | null
  | bool (value : Bool)
  | int (value : Int)
  /-- A value that no setting can have, such as a number that is not whole. -/
  | foreign
  /-- A number that is too large for its format.  Who asks for a natural number may still get the
  nearest one; who passes over the value does not get past it. -/
  | beyond (nearest : Option Nat)
  | text (value : String)
  /-- A scalar whose type is left open. -/
  | scalar (style : Style) (tag : Option Tag) (text : String)
  | list (items : List Data)
  | table (entries : List (String × Data))
deriving Inhabited

/-- What a format lets stand for other things. -/
structure Dialect where
  /-- May a list stand for a record, given how many fields the record must and can have, and the
  length of the list? -/
  listFits : Nat → Nat → Nat → Bool
  /-- The word that a table stands for. -/
  word? : List (String × Data) → Option String

namespace Data

/-! ## Scalars -/

/-- Text; a scalar of an open type is its text. -/
def asText : Data → Option String
  | .text s => some s
  | .scalar _ _ s => some s
  | _ => none

/-- The text of a scalar of an open type that may be of the type with the given name: it has no
quotes, or it is a block of lines with the tag of that type. -/
def openText? (type : String) : Data → Option String
  | .scalar .plain _ s => some s
  | .scalar .literal tag s => if tag == some (.standard type) then some s else none
  | _ => none

/-- A truth value from its word. -/
def boolOf? (s : String) : Option Bool :=
  if ["true", "True", "TRUE"].contains s then some true
  else if ["false", "False", "FALSE"].contains s then some false
  else none

/-- A truth value. -/
def asBool : Data → Option Bool
  | .bool b => some b
  | d => (d.openText? "bool").bind boolOf?

/-- The value of a digit below `base`. -/
def digit? (base : Nat) (c : Char) : Option Nat :=
  let n :=
    if c.isDigit then c.toNat - '0'.toNat
    else if 'a' ≤ c && c ≤ 'z' then c.toNat - 'a'.toNat + 10
    else if 'A' ≤ c && c ≤ 'Z' then c.toNat - 'A'.toNat + 10
    else base
  if n < base then some n else none

/-- A number from its digits, of which there is at least one. -/
def ofDigits? (base : Nat) (digits : List Char) : Option Nat :=
  if digits.isEmpty then none
  else digits.foldlM (fun n c => (digit? base c).map (base * n + ·)) 0

/-- The bound of natural numbers in configuration files. -/
def natBound : Nat := 18446744073709551616

/-- A natural number from its text: decimal without leading zeros, or with a mark for hexadecimal,
octal or binary digits, and with an optional plus sign. -/
def natOf? (s : String) : Option Nat :=
  let cs := match s.toList with
    | '+' :: cs => cs
    | cs => cs
  match cs with
  | '0' :: 'x' :: digits => ofDigits? 16 digits
  | '0' :: 'o' :: digits => ofDigits? 8 digits
  | '0' :: 'b' :: digits => ofDigits? 2 digits
  | '0' :: _ :: _ => none
  | digits => ofDigits? 10 digits

/-- A natural number. -/
def asNat (d : Data) : Option Nat :=
  let n := match d with
    | .int (.ofNat n) => some n
    | .beyond n => n
    | d => (d.openText? "int").bind natOf?
  n.filter (· < natBound)

/-- Does the text of a scalar of an open type stand for nothing? -/
def isNullWord (s : String) : Bool := ["~", "null", "Null", "NULL"].contains s

/-- One of a set of words: text, the word of a tag before nothing, or what the dialect allows. -/
def asWord (dialect : Dialect) : Data → Option String
  | .table entries => dialect.word? entries
  | .scalar style tag s =>
    match tag.bind Tag.word? with
    | some word => if style == .plain && (s.isEmpty || isNullWord s) then some word else none
    | none => some s
  | d => d.asText

/-- What `read` reads, or absent.  A plain scalar that is empty or stands for nothing is absent,
unless it has a tag; one with the tag of nothing must stand for it. -/
def asOptional {α : Type} (read : Data → Option α) (d : Data) : Option (Option α) :=
  match d with
  | .null => some none
  | .scalar .plain none s =>
    if s.isEmpty || isNullWord s then some none else (read d).map some
  | .scalar .plain (some tag) s =>
    if tag != .standard "null" then (read d).map some
    else if isNullWord s then some none
    else none
  | d => (read d).map some

/-! ## Lists and tables -/

/-- A list of what `read` reads. -/
def asList {α : Type} (read : Data → Option α) : Data → Option (List α)
  | .list items => items.mapM read
  | _ => none

/-- Sets a key: a later value takes the place of an earlier one. -/
def setKey {α : Type} (entries : List (String × α)) (key : String) (value : α) :
    List (String × α) :=
  entries.filter (fun e => e.1 != key) ++ [(key, value)]

/-- The entries of a table; an empty plain scalar is an empty table. -/
def entries? : Data → Option (List (String × Data))
  | .table entries => some entries
  | .scalar .plain _ "" => some []
  | _ => none

/-- A table of what `read` reads; of a repeated key the last value counts. -/
def asTable {α : Type} (read : Data → Option α) (d : Data) : Option (List (String × α)) := do
  let read ← (← d.entries?).mapM fun e => (read e.2).map (e.1, ·)
  some (read.foldl (fun es e => setKey es e.1 e.2) [])

mutual

/-- Can the value be passed over?  It can unless there is a number too large for its format in it. -/
def passes : Data → Bool
  | .beyond _ => false
  | .list items => allPass items
  | .table entries => entriesPass entries
  | _ => true

/-- Can all values be passed over? -/
def allPass : List Data → Bool
  | [] => true
  | d :: ds => d.passes && allPass ds

/-- Can the values of all entries be passed over? -/
def entriesPass : List (String × Data) → Bool
  | [] => true
  | (_, d) :: rest => d.passes && entriesPass rest

end

/-- The values of the named fields, absent ones among them; other keys are passed over.  A field
must not be repeated.  Where the dialect allows it, a list gives the fields in their order, the first
`required` of them at least. -/
def asRecord (dialect : Dialect) (required : Nat) (names : List String) (d : Data) :
    Option (List (Option Data)) :=
  match d with
  | .list items =>
    if dialect.listFits required names.length items.length then
      some ((List.range names.length).map fun i => items[i]?)
    else none
  | d => do
    let entries ← d.entries?
    let repeated := names.any fun n => 1 < (entries.filter (·.1 == n)).length
    let others := entries.filter fun e => !names.contains e.1
    if repeated || !entriesPass others then none else some (names.map fun n => entries.lookup n)

end Data

namespace Dialect

/-- Of data that programs exchange: a list has no more items than there are fields, and a word may be
the only key of a table, with `null` under it. -/
def exchange : Dialect where
  listFits required fields n := required ≤ n && n ≤ fields
  word? entries := match entries with
    | [(word, .null)] => some word
    | _ => none

/-- Of JSON: what follows the fields in a list does not count, and neither does what follows the first
key of a table that stands for a word. -/
def json : Dialect where
  listFits required _ n := required ≤ n
  word? entries := match entries with
    | (word, .null) :: _ => some word
    | _ => none

/-- Of TOML, which has no `null`: under a word stands an empty table or list. -/
def toml : Dialect where
  listFits required _ n := required ≤ n
  word? entries := match entries with
    | [(word, .table [])] => some word
    | [(word, .list [])] => some word
    | _ => none

/-- Of YAML: nothing stands for something else. -/
def yaml : Dialect where
  listFits _ _ _ := false
  word? _ := none

end Dialect

end CodeMend.Config
