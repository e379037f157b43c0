import CodeMend.Config.Data

/-!
# Nodes of a document

A node may have a name, and other nodes may refer to it by that name, even from within.  A reference
is therefore kept as what it is, and followed only as far as settings are nested.

A name stands for a *number*, and a number for the node that got it last.  The number is how many
names are in use already, so a name that is given anew shares its number with the next one that
follows.
-/

namespace CodeMend.Config.Yaml

/-- A node of a document. -/
inductive Node where
  | scalar (style : Style) (tag : Option Tag) (text : String)
  | sequence (items : List Node)
  | mapping (entries : List (Node × Node))
  /-- The node with a number. -/
  | reference (number : Nat)

namespace Node

/-- The node that is absent. -/
def empty : Node := .scalar .plain none ""

end Node

/-- The nodes with a name. -/
structure Names where
  /-- The numbers of the names in use. -/
  numbers : List (String × Nat) := []
  /-- The number of each node that got one, the last node first.  A node's own place in this list,
  counted from its end, tells it from all others. -/
  given : List Nat := []
  /-- The nodes that are complete, by their place. -/
  nodes : List (Nat × Node) := []

namespace Names

/-- Gives a name to the node that starts here, with the place of the node. -/
def give (n : Names) (name : String) : Nat × Names :=
  let number := n.numbers.length
  let others := n.numbers.filter fun e => e.1 != name
  (n.given.length, { n with numbers := (name, number) :: others, given := number :: n.given })

/-- Keeps the node of a place. -/
def keep (n : Names) (place : Nat) (node : Node) : Names :=
  { n with nodes := (place, node) :: n.nodes }

/-- The node with a number. -/
def node? (n : Names) (number : Nat) : Option Node :=
  let later := n.given.takeWhile (· != number)
  n.nodes.lookup (n.given.length - later.length - 1)

end Names

/-- What a node holds, down to a depth.  References are followed; they never lead to another
reference.  A mapping in which a key is no text holds nothing that can be used. -/
def Node.data (names : Names) : Nat → Node → Data
  | depth, node =>
    let target := match node with
      | .reference number => names.node? number
      | node => some node
    match depth, target with
    | _, some (.scalar style tag text) => .scalar style tag text
    | depth + 1, some (.sequence items) => .list (items.map (Node.data names depth))
    | depth + 1, some (.mapping entries) =>
      let entry (e : Node × Node) : Option (String × Data) :=
        (Node.data names depth e.1).asText.map (·, Node.data names depth e.2)
      ((entries.mapM entry).map .table).getD .foreign
    | _, _ => .foreign

end CodeMend.Config.Yaml
