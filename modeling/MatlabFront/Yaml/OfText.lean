import MatlabFront.Yaml.Node.OfPieces
import MatlabFront.Yaml.Piece.OfText
import MatlabFront.Yaml.Scalar

/-!
# Reading YAML

The settings document that a YAML text writes. A tag that begins with an exclamation mark names a
case; other tags only matter on scalars in lines, which are truth values if a tag says so. No setting
is a list.

A reference may stand inside the node that it refers to, so that a document is unfolded only to some
depth, which is greater than that of any setting.
-/

namespace MatlabFront.Yaml

/-- The case that a tag names. The exclamation mark alone names none. -/
def caseName? (tag : String) : Option String :=
  match tag.toList with
  | '!' :: c :: cs => some (String.ofList (c :: cs))
  | _ => none

/-- The tag of truth values. -/
def truthTag : String := "tag:yaml.org,2002:bool"

/-- The document of a scalar without regard to the case that its tag names. -/
def scalarDocument (properties : Properties) (style : Style) (text : String) : Document :=
  match style with
  | .plain => plainDocument text
  | .literal =>
    match truth? text with
    | some value => if properties.tag = some truthTag then .truth value else .word text
    | none => .word text
  | .quoted | .folded => .word text

/-- Marks a document with the case that a tag names. -/
def withCase (properties : Properties) (document : Document) : Document :=
  match properties.tag.bind caseName? with
  | some name => .tagged name document
  | none => document

/-- The text of a key, given the nodes with anchors; nothing if it is a collection. -/
def keyText? (anchored : List (Nat × Node)) : Node → Option String
  | .scalar _ _ text => some text
  | .reference anchor =>
    match anchored.lookup anchor with
    | some (.scalar _ _ text) => some text
    | _ => none
  | _ => none

/-- The document of a node to some depth, given the nodes with anchors. -/
def nodeDocument (anchored : List (Nat × Node)) : Nat → Node → Document
  | 0, _ => .other
  | depth + 1, node =>
    match node with
    | .reference anchor =>
      match anchored.lookup anchor with
      | some found => nodeDocument anchored depth found
      | none => .other
    | .scalar properties style text => withCase properties (scalarDocument properties style text)
    | .list properties _ => withCase properties .other
    | .table properties entries => withCase properties <| .table <| entries.map fun (key, value) =>
      (keyText? anchored key, nodeDocument anchored depth value)

/-- The depth to which a document is unfolded. Settings stand in a section of a table, and each of the
three may be a reference. -/
def depth : Nat := 8

/-- The document of a text. A text without any is blank. -/
def ofText? (text : String) : Option Document := do
  let found ← node? (← pieces? text.toList)
  some <| found.elim .blank fun node => nodeDocument (node.anchored []) depth node

end MatlabFront.Yaml
