import CodeMend.Config.Yaml.Node
import CodeMend.Config.Yaml.Token

/-!
# Configuration as YAML

Scalars stay open: whether `80` is a number or a text is up to who asks for it.  A file holds one
document, which may be empty.
-/

namespace CodeMend.Config.Yaml

/-- What is left to read, what is known about the document, and the nodes that have a name. -/
structure Feed where
  tokens : List Token
  prologue : Prologue := {}
  names : Names := {}

/-- A reader of a part of a document. -/
abbrev Reader := StateT Feed Option

namespace Reader

/-- The next token. -/
def peek? : Reader (Option Token) := return (← get).tokens.head?

/-- Passes a token. -/
def skip : Reader Unit := modify fun s => { s with tokens := s.tokens.drop 1 }

/-- Passes the token if it is the next one, and says whether it was. -/
def accept (t : Token) : Reader Bool := do
  if (← peek?) == some t then
    skip
    return true
  else return false

/-- Is the next token none of these, nor the end? -/
def isNone (ts : List Token) : Reader Bool := return (← peek?).any fun t => !ts.contains t

/-- The tag and the name before a node, each at most once. -/
def properties : Nat → Option TagMark → Option String → Reader (Option TagMark × Option String)
  | 0, mark, name => return (mark, name)
  | fuel + 1, mark, name => do
    match ← peek?, mark, name with
    | some (.anchor n), _, none =>
      skip
      properties fuel mark (some n)
    | some (.tag m), none, _ =>
      skip
      properties fuel (some m) name
    | _, _, _ => return (mark, name)

/-- The tag that is written as a mark. -/
def tagOf (mark : TagMark) : Reader Tag := do
  match (← get).prologue.tag? mark with
  | some tag => return tag
  | none => failure

/-- The node that `read` reads, under a name if there is one. -/
def named (name : Option String) (read : Reader Node) : Reader Node := do
  match name with
  | none => read
  | some name =>
    let (place, names) := (← get).names.give name
    modify fun s => { s with names }
    let node ← read
    modify fun s => { s with names := s.names.keep place node }
    return node

/-- A reference to the node with a name. -/
def referenceTo (name : String) : Reader Node := do
  match (← get).names.numbers.lookup name with
  | some number => return .reference number
  | none => failure

mutual

/-- A node.  A sequence without an indentation of its own may start only if `flat` holds. -/
def node : Nat → Bool → Reader Node
  | 0, _ => failure
  | fuel + 1, flat => do
    match ← peek? with
    | some (.reference name) =>
      skip
      referenceTo name
    | _ =>
      let (mark, name) ← properties 2 none none
      let tag ← mark.mapM tagOf
      named name do
        match ← peek? with
        | some (.scalar style text) =>
          skip
          return .scalar style (tag.filter (· != .bare)) text
        | some .openBracket =>
          skip
          return .sequence (← bracketItems fuel true)
        | some .openBrace =>
          skip
          return .mapping (← braceEntries fuel true)
        | some .sequenceStart =>
          skip
          return .sequence (← blockItems fuel)
        | some .mappingStart =>
          skip
          return .mapping (← blockEntries fuel)
        | next =>
          if flat && next == some .item then return .sequence (← flatItems fuel)
          else
            guard (tag.isSome || name.isSome)
            return .scalar .plain tag ""

/-- A node unless one of `ends` comes, and an absent one if it does. -/
def nodeUnless : Nat → Bool → List Token → Reader Node
  | 0, _, _ => failure
  | fuel + 1, flat, ends => do
    if ← isNone ends then node fuel flat else return .empty

/-- The value of an entry behind its key, an absent one if there is none. -/
def entryValue : Nat → Bool → List Token → Reader Node
  | 0, _, _ => failure
  | fuel + 1, flat, ends => do
    if ← accept .value then nodeUnless fuel flat ends else return .empty

/-- The items of a block sequence up to its end. -/
def blockItems : Nat → Reader (List Node)
  | 0 => failure
  | fuel + 1 => do
    if ← accept .item then
      let item ← nodeUnless fuel false [.item, .blockEnd]
      return item :: (← blockItems fuel)
    else
      guard (← accept .blockEnd)
      return []

/-- The items of a sequence without an indentation of its own; something else ends it. -/
def flatItems : Nat → Reader (List Node)
  | 0 => failure
  | fuel + 1 => do
    if ← accept .item then
      let item ← nodeUnless fuel false [.item, .key, .value, .blockEnd]
      return item :: (← flatItems fuel)
    else return []

/-- The entries of a block mapping up to its end. -/
def blockEntries : Nat → Reader (List (Node × Node))
  | 0 => failure
  | fuel + 1 => do
    if ← accept .key then
      let ends : List Token := [.key, .value, .blockEnd]
      let key ← nodeUnless fuel true ends
      let value ← entryValue fuel true ends
      return (key, value) :: (← blockEntries fuel)
    else
      guard (← accept .blockEnd)
      return []

/-- The items of a sequence in brackets.  An item may be a mapping of one entry; the token that stands
in the place of its key is passed over. -/
def bracketItems : Nat → Bool → Reader (List Node)
  | 0, _ => failure
  | fuel + 1, first => do
    if ← accept .closeBracket then return []
    else
      if !first then guard (← accept .comma)
      if ← accept .closeBracket then return []
      else
        let item ← if ← accept .key then do
            let keyed ← isNone [.value, .comma, .closeBracket]
            let key ← if keyed then node fuel false else do
              skip
              pure .empty
            pure (.mapping [(key, ← entryValue fuel false [.comma, .closeBracket])])
          else node fuel false
        return item :: (← bracketItems fuel false)

/-- The entries of a mapping in braces. -/
def braceEntries : Nat → Bool → Reader (List (Node × Node))
  | 0, _ => failure
  | fuel + 1, first => do
    if ← accept .closeBrace then return []
    else
      if !first then guard (← accept .comma)
      if ← accept .closeBrace then return []
      else
        let (key, value) ← if ← accept .key then do
            let key ← nodeUnless fuel false [.value, .comma, .closeBrace]
            pure (key, ← entryValue fuel false [.comma, .closeBrace])
          else pure (← node fuel false, .empty)
        return (key, value) :: (← braceEntries fuel false)

end

/-- Takes the directives into account and says whether there are any. -/
def directives : Nat → Reader Bool
  | 0 => return false
  | fuel + 1 => do
    match ← peek? with
    | some (.directive d) =>
      skip
      match (← get).prologue.add? d with
      | some prologue => modify fun s => { s with prologue }
      | none => failure
      let _ ← directives fuel
      return true
    | _ => return false

/-- Passes the marks behind a document. -/
def documentEnds : Nat → Reader Unit
  | 0 => return
  | fuel + 1 => do if ← accept .documentEnd then documentEnds fuel

/-- Does the token belong to the lines around documents? -/
def isBoundary : Token → Bool
  | .directive _ => true
  | .documentStart => true
  | .documentEnd => true
  | _ => false

/-- The only document. -/
def document (fuel : Nat) : Reader Node := do
  let announced ← directives fuel
  let opened ← accept .documentStart
  guard (opened || !announced)
  let root ← match ← peek? with
    | none => pure .empty
    | some t => if opened && isBoundary t then pure .empty else node fuel false
  documentEnds fuel
  guard (← peek?).isNone
  return root

end Reader

/-- How deep settings are nested at most: sections, entries and their values. -/
def depth : Nat := 3

/-- The value of a whole text. -/
def read? (text : String) : Option Data := do
  let tokens ← tokens? text
  let (root, feed) ← (Reader.document (3 * tokens.length + 3)).run { tokens }
  some (root.data feed.names depth)

end CodeMend.Config.Yaml
