import MatlabFront.Files

/-!
# File trees

Files kept in memory: a working directory and a home directory, each under a name of its own. A path
that begins with neither name is followed from the working directory.
-/

namespace MatlabFront

/-- A file with its text, or a directory with its entries. -/
inductive FileNode where
  | file (text : String)
  | directory (entries : List (String × FileNode))

namespace FileNode

/-- Follows the parts of a path, given the directories above, the nearest first. Nothing is known
above the first directory. -/
def follow (node : FileNode) (above : List FileNode) : List (List Char) → Except FileFault FileNode
  | [] => .ok node
  | part :: parts =>
    match node with
    | .file _ => .error .notADirectory
    | .directory entries =>
      if part = [] ∨ part = ['.'] then follow node above parts
      else if part = ['.', '.'] then
        match above with
        | [] => .error .notFound
        | parent :: above => follow parent above parts
      else
        match entries.lookup (String.ofList part) with
        | none => .error .notFound
        | some inner => follow inner (node :: above) parts

/-- Puts a node under a name in a directory. -/
def put (name : String) (node : FileNode) : List (String × FileNode) → List (String × FileNode)
  | [] => [(name, node)]
  | (other, old) :: entries =>
    if other = name then (name, node) :: entries else (other, old) :: put name node entries

/-- Adds a file or a directory below a directory, with the directories on the way. -/
def add (node : FileNode) : List (List Char) → List (String × FileNode) → List (String × FileNode)
  | [], entries => entries
  | [name], entries => put (String.ofList name) node entries
  | name :: path, entries =>
    let name := String.ofList name
    let inner := match entries.lookup name with
      | some (.directory inner) => inner
      | _ => []
    put name (.directory (add node path inner)) entries

/-- Writes a text below a directory. The directories on the way have to be there, and the file must
not be a directory. -/
def write (text : String) : List (List Char) → List (String × FileNode) →
    Except FileFault (List (String × FileNode))
  | [], _ => .error .isADirectory
  | [name], entries =>
    match entries.lookup (String.ofList name) with
    | some (.directory _) => .error .isADirectory
    | _ => .ok (put (String.ofList name) (.file text) entries)
  | name :: path, entries =>
    match entries.lookup (String.ofList name) with
    | none => .error .notFound
    | some (.file _) => .error .notADirectory
    | some (.directory inner) =>
      match write text path inner with
      | .error fault => .error fault
      | .ok inner => .ok (put (String.ofList name) (.directory inner) entries)

/-- The names on the way to a path below a directory, with the steps up taken. A step up leads out of
a directory that is there. -/
def names (top : List (String × FileNode)) (above : List (List Char)) :
    List (List Char) → Except FileFault (List (List Char))
  | [] => .ok above.reverse
  | part :: parts =>
    if part = [] ∨ part = ['.'] then names top above parts
    else if part = ['.', '.'] then
      match (directory top).follow [] above.reverse, above with
      | .ok (.directory _), _ :: above => names top above parts
      | .ok (.file _), _ => .error .notADirectory
      | .error fault, _ => .error fault
      | _, [] => .error .notFound
    else names top (part :: above) parts

/-- Writes a file below a directory. A path that ends in a slash, or in a step to no name, is no path
of a file. -/
def writeFile (text : String) (parts : List (List Char)) (top : List (String × FileNode)) :
    Except FileFault (List (String × FileNode)) :=
  if parts.getLast? ∈ [some [], some ['.'], some ['.', '.']] then
    match (directory top).follow [] parts with
    | .error .notFound =>
      let parent := (directory top).follow [] parts.dropLast.dropLast
      if parts.getLast? = some [] ∧ parent.isOk then .error .isADirectory else .error .notFound
    | .error fault => .error fault
    | .ok _ => .error .isADirectory
  else
    match names top [] parts with
    | .error fault => .error fault
    | .ok names => write text names top

end FileNode

/-- A working directory and a home directory. -/
structure FileTree where
  workingName : String
  working : List (String × FileNode)
  homeName : String
  home : List (String × FileNode)

namespace FileTree

/-- The parts of a path behind the name of a directory that it begins with. -/
def partsBehind? (directory path : String) : Option (List (List Char)) :=
  match Path.parts path.toList with
  | first :: more => if first = directory.toList then some more else none
  | [] => none

/-- A directory of a tree. -/
inductive Place where
  | working
  | home

/-- What is in a directory of a tree. -/
def entries (tree : FileTree) : Place → List (String × FileNode)
  | .working => tree.working
  | .home => tree.home

/-- A tree with other entries in one of its directories. -/
def withEntries (tree : FileTree) (place : Place) (entries : List (String × FileNode)) : FileTree :=
  match place with
  | .working => { tree with working := entries }
  | .home => { tree with home := entries }

/-- The directory from which a path is followed, and the parts of the path from there; nothing for a
path that leads elsewhere. -/
def route? (tree : FileTree) (path : String) : Option (Place × List (List Char)) :=
  if path = "" then none
  else match partsBehind? tree.workingName path with
    | some parts => some (.working, parts)
    | none =>
      match partsBehind? tree.homeName path with
      | some parts => some (.home, parts)
      | none =>
        if path.toList.head? = some '/' then none else some (.working, Path.parts path.toList)

/-- What a path leads to. -/
def look (tree : FileTree) (path : String) : Except FileFault FileNode :=
  match tree.route? path with
  | some (place, parts) => (FileNode.directory (tree.entries place)).follow [] parts
  | none => .error .notFound

/-- The files of a tree. -/
def files (tree : FileTree) : Files where
  present path := (tree.look path).isOk
  read path :=
    match tree.look path with
    | .ok (.file text) => .ok text
    | .ok (.directory _) => .error .isADirectory
    | .error fault => .error fault

/-- Writes a file at a path. -/
def write (tree : FileTree) (path text : String) : Except FileFault FileTree :=
  match tree.route? path with
  | none => .error .notFound
  | some (place, parts) =>
    match FileNode.writeFile text parts (tree.entries place) with
    | .error fault => .error fault
    | .ok entries => .ok (tree.withEntries place entries)

end FileTree

end MatlabFront
