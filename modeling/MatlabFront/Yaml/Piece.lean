/-!
# The pieces of a YAML text

A text is read in two steps: into pieces, and from pieces into nodes. Most pieces are written by
signs of their own. Block collections are written by columns alone, so that their starts and ends,
and the keys in front of a colon, are pieces that the reader adds.
-/

namespace MatlabFront.Yaml

/-- How a scalar is written. -/
inductive Style where
  | plain
  | quoted
  /-- In lines below a bar, line ends kept. -/
  | literal
  /-- In lines below an angle, line ends folded. -/
  | folded
  deriving DecidableEq

/-- A piece of a text. -/
inductive Piece where
  | versionDirective (major minor : Nat)
  /-- Says what a handle stands for in tags; no text if its address is not one. -/
  | tagDirective (handle : String) (address : Option String)
  | documentStart
  | documentEnd
  /-- A block list starts. -/
  | blockListStart
  /-- A block table starts. -/
  | blockTableStart
  /-- A block list or table that has a start ends. -/
  | blockEnd
  | flowListStart
  | flowListEnd
  | flowTableStart
  | flowTableEnd
  /-- The dash in front of an item. -/
  | item
  /-- The comma between the items or the entries of a flow collection. -/
  | comma
  /-- A key is next, by its sign or because a colon follows it. -/
  | key
  /-- The colon in front of a value. -/
  | value
  | reference (name : String)
  | anchor (name : String)
  /-- A tag as a handle and a name behind it, which is none if its codes are not those of a text. -/
  | tag (handle : String) (name : Option String)
  | scalar (style : Style) (text : String)
  deriving DecidableEq

end MatlabFront.Yaml
