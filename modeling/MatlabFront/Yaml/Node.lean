import MatlabFront.Yaml.Piece

/-!
# The nodes of a YAML text

A document is a node: a scalar, a list or a table of nodes, or a reference that stands for a node
with an anchor. A reference knows the number of the anchor that it refers to. The number of an anchor
is given when its name is: it is the number of names that are known by then. So a name that is given
again can take the number of another one, and a number refers to the node that got it last.
-/

namespace MatlabFront.Yaml

/-- What stands in front of the content of a node. -/
structure Properties where
  /-- A tag, its handle resolved. -/
  tag : Option String
  /-- The number of an anchor. -/
  anchor : Option Nat
  deriving DecidableEq

/-- A node. -/
inductive Node where
  | reference (anchor : Nat)
  | scalar (properties : Properties) (style : Style) (text : String)
  | list (properties : Properties) (items : List Node)
  | table (properties : Properties) (entries : List (Node × Node))

namespace Node

/-- Adds a node to those found before, if it has an anchor. -/
def mark (properties : Properties) (node : Node) (found : List (Nat × Node)) : List (Nat × Node) :=
  match properties.anchor with
  | some number => (number, node) :: found
  | none => found

mutual

/-- The nodes with an anchor, the last to begin first, in front of those found before. -/
def anchored (found : List (Nat × Node)) : Node → List (Nat × Node)
  | reference _ => found
  | scalar properties style text => mark properties (scalar properties style text) found
  | list properties items => anchoredItems (mark properties (list properties items) found) items
  | table properties entries =>
    anchoredEntries (mark properties (table properties entries) found) entries

/-- The nodes with an anchor in a list. -/
def anchoredItems (found : List (Nat × Node)) : List Node → List (Nat × Node)
  | [] => found
  | item :: items => anchoredItems (item.anchored found) items

/-- The nodes with an anchor in a table. -/
def anchoredEntries (found : List (Nat × Node)) : List (Node × Node) → List (Nat × Node)
  | [] => found
  | (key, value) :: entries => anchoredEntries (value.anchored (key.anchored found)) entries

end

end Node

end MatlabFront.Yaml
