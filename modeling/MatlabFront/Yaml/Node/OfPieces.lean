import MatlabFront.Yaml.Node

/-!
# Reading the nodes of a YAML text from its pieces

Each function reads what comes next from the pieces that are left. A node may be left empty where a
key, an item or a value needs one. The readers take the number of steps they may still go down; a few
for each piece are more than enough.
-/

namespace MatlabFront.Yaml

/-- What is left to read, and what has been named. -/
structure Progress where
  pieces : List Piece
  /-- The numbers of anchors by their names. -/
  anchors : List (String × Nat)
  /-- What handles stand for. -/
  handles : List (String × Option String)

/-- A reader of a part of a document. -/
abbrev Read := StateT Progress Option

namespace Read

/-- The pieces are no document. -/
def refuse {α : Type} : Read α := fun _ => none

/-- The next piece; nothing behind the last. -/
def next? : Read (Option Piece) := do return (← get).pieces.head?

/-- Goes on behind the next piece. -/
def skip : Read Unit := modify fun progress => { progress with pieces := progress.pieces.tail }

/-- The next piece is one of some. -/
def nextIs (wanted : List Piece) : Read Bool := do return (← next?).any wanted.contains

/-- Goes on behind the next piece if it is a certain one, and says whether it was. -/
def skipIf (piece : Piece) : Read Bool := do
  if ← nextIs [piece] then
    skip
    return true
  else return false

/-- Gives a name to an anchor, and returns its number. -/
def defineAnchor (name : String) : Read Nat := do
  let anchors := (← get).anchors
  let others := anchors.filter (·.1 != name)
  modify fun progress => { progress with anchors := (name, anchors.length) :: others }
  return anchors.length

/-- The tag for a handle and a name behind it; none if its codes are not those of a text. -/
def resolveTag (handle : String) (name : Option String) : Read (Option String) := do
  if handle.isEmpty then return name
  else
    match (← get).handles.lookup handle with
    | none => refuse
    | some address => return do some ((← address) ++ (← name))

/-- A tag, if one comes next. -/
def tag : Read (Option (Option String)) := do
  match ← next? with
  | some (.tag handle name) =>
    skip
    return some (← resolveTag handle name)
  | _ => return none

/-- The name of an anchor, if one comes next. -/
def anchor : Read (Option String) := do
  match ← next? with
  | some (.anchor name) =>
    skip
    return some name
  | _ => return none

/-- What comes in front of the content of a node, and whether anything does. The tag and the anchor
come in any order. -/
def properties : Read (Properties × Bool) := do
  let first ← tag
  let name ← anchor
  let tag ← if first.isSome then pure first else tag
  let number ← name.mapM defineAnchor
  return (⟨tag.getD none, number⟩, tag.isSome || name.isSome)

/-- A node without content. -/
def empty : Node := .scalar ⟨none, none⟩ .plain ""

mutual

/-- A node. A block collection begins only where one may stand, and a list without columns of its own
only where the key of a table is in front. -/
def node (steps : Nat) (block indentless : Bool) : Read Node :=
  match steps with
  | 0 => refuse
  | steps + 1 => do
    match ← next? with
    | some (.reference name) =>
      skip
      match (← get).anchors.lookup name with
      | some number => return .reference number
      | none => refuse
    | _ =>
      let (properties, given) ← properties
      match ← next? with
      | some (.scalar style text) =>
        skip
        return .scalar properties style text
      | some .flowListStart =>
        skip
        return .list properties (← flowItems steps true)
      | some .flowTableStart =>
        skip
        return .table properties (← flowEntries steps true)
      | some .item =>
        if indentless then return .list properties (← indentlessItems steps)
        else if given then return .scalar properties .plain ""
        else refuse
      | some .blockListStart =>
        if block then
          skip
          return .list properties (← blockItems steps)
        else if given then return .scalar properties .plain ""
        else refuse
      | some .blockTableStart =>
        if block then
          skip
          return .table properties (← blockEntries steps)
        else if given then return .scalar properties .plain ""
        else refuse
      | _ => if given then return .scalar properties .plain "" else refuse

/-- A node that is empty if one of some pieces comes next. -/
def nodeUnless (steps : Nat) (ends : List Piece) (block indentless : Bool) : Read Node :=
  match steps with
  | 0 => refuse
  | steps + 1 => do
    if ← nextIs ends then return empty else node steps block indentless

/-- The items of a block list, and its end. -/
def blockItems (steps : Nat) : Read (List Node) :=
  match steps with
  | 0 => refuse
  | steps + 1 => do
    if ← skipIf .blockEnd then return []
    else if ← skipIf .item then
      let item ← nodeUnless steps [.item, .blockEnd] true false
      return item :: (← blockItems steps)
    else refuse

/-- The items of a list whose dashes stand in the column of the table around it. -/
def indentlessItems (steps : Nat) : Read (List Node) :=
  match steps with
  | 0 => refuse
  | steps + 1 => do
    if ← skipIf .item then
      let item ← nodeUnless steps [.item, .key, .value, .blockEnd] true false
      return item :: (← indentlessItems steps)
    else return []

/-- The entries of a block table, and its end. -/
def blockEntries (steps : Nat) : Read (List (Node × Node)) :=
  match steps with
  | 0 => refuse
  | steps + 1 => do
    if ← skipIf .blockEnd then return []
    else if ← skipIf .key then
      let key ← nodeUnless steps [.key, .value, .blockEnd] true true
      let value ←
        if ← skipIf .value then nodeUnless steps [.key, .value, .blockEnd] true true else pure empty
      return (key, value) :: (← blockEntries steps)
    else refuse

/-- The items of a flow list, and its end. In front of every item but the first there is a comma. -/
def flowItems (steps : Nat) (first : Bool) : Read (List Node) :=
  match steps with
  | 0 => refuse
  | steps + 1 => do
    if ← skipIf .flowListEnd then return []
    else if ← (if first then pure true else skipIf .comma) then
      if ← skipIf .flowListEnd then return []
      else if ← skipIf .key then
        let entry ← flowPair steps
        return .table ⟨none, none⟩ [entry] :: (← flowItems steps false)
      else
        let item ← node steps false false
        return item :: (← flowItems steps false)
    else refuse

/-- A table of one entry without braces, behind the sign of its key. If the key is empty, the piece
in its place is left out. -/
def flowPair (steps : Nat) : Read (Node × Node) :=
  match steps with
  | 0 => refuse
  | steps + 1 => do
    let key ←
      if ← nextIs [.value, .comma, .flowListEnd] then do
        skip
        pure empty
      else node steps false false
    let value ←
      if ← skipIf .value then nodeUnless steps [.comma, .flowListEnd] false false else pure empty
    return (key, value)

/-- The entries of a flow table, and its end. In front of every entry but the first there is a
comma. -/
def flowEntries (steps : Nat) (first : Bool) : Read (List (Node × Node)) :=
  match steps with
  | 0 => refuse
  | steps + 1 => do
    if ← skipIf .flowTableEnd then return []
    else if ← (if first then pure true else skipIf .comma) then
      if ← skipIf .flowTableEnd then return []
      else if ← skipIf .key then
        let key ← nodeUnless steps [.value, .comma, .flowTableEnd] false false
        let value ←
          if ← skipIf .value then nodeUnless steps [.comma, .flowTableEnd] false false
          else pure empty
        return (key, value) :: (← flowEntries steps false)
      else
        let key ← node steps false false
        return (key, empty) :: (← flowEntries steps false)
    else refuse

end

/-- Directives. The version may be given once and has to be one of the known ones, and a handle may be
given one meaning. -/
def directives (steps : Nat) (version : Bool) (given : List (String × Option String)) :
    Read (Bool × List (String × Option String)) :=
  match steps with
  | 0 => refuse
  | steps + 1 => do
    match ← next? with
    | some (.versionDirective major minor) =>
      if version || major != 1 || !(minor == 1 || minor == 2) then refuse
      else
        skip
        directives steps true given
    | some (.tagDirective handle address) =>
      if (given.lookup handle).isSome then refuse
      else
        skip
        directives steps version ((handle, address) :: given)
    | _ => return (version || !given.isEmpty, given)

/-- What handles stand for where no directive says it. -/
def usualHandles : List (String × Option String) :=
  [("!", some "!"), ("!!", some "tag:yaml.org,2002:")]

/-- Pieces that end a document without content behind its mark. -/
def endsContent : Option Piece → Bool
  | none | some .documentStart | some .documentEnd | some (.versionDirective _ _)
  | some (.tagDirective _ _) => true
  | _ => false

/-- Marks of the end of a document, and nothing else. -/
def marksOnly (pieces : List Piece) : Bool := pieces.all (· == .documentEnd)

/-- The only document of a text; nothing if the text has none. -/
def document (steps : Nat) : Read (Option Node) := do
  let (directed, given) ← directives steps false []
  modify fun progress => { progress with handles := given ++ usualHandles }
  if (← next?).isNone && !directed then return none
  else
    let marked ← skipIf .documentStart
    if directed && !marked then refuse
    else
      let found ←
        if marked && endsContent (← next?) then pure empty else node steps true false
      if marksOnly (← get).pieces then return some found else refuse

end Read

/-- The only node of the pieces of a text; nothing if there are no pieces, and no answer if they are
no document. -/
def node? (pieces : List Piece) : Option (Option Node) :=
  let steps := 4 * pieces.length + 8
  ((Read.document steps).run ⟨pieces, [], []⟩).map (·.1)

end MatlabFront.Yaml
