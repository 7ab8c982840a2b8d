/-!
# Files

Files as a program sees them: whether something is at a path, and the text behind it or the reason why
there is none. The extension of a path is what stands behind the last dot of its last part; a dot that
begins the part makes none.
-/

namespace MatlabFront

/-- Why a file cannot be read or written. -/
inductive FileFault where
  | notFound
  | denied
  | notADirectory
  | isADirectory
  /-- The bytes of the file are no text. -/
  | notText
  /-- Any other reason, in the words of the system. -/
  | other (text : String)
  deriving DecidableEq

/-- The wording of a fault, with its number. -/
def FileFault.text : FileFault → String
  | notFound => "No such file or directory (os error 2)"
  | denied => "Permission denied (os error 13)"
  | notADirectory => "Not a directory (os error 20)"
  | isADirectory => "Is a directory (os error 21)"
  | notText => "stream did not contain valid UTF-8"
  | other text => text

/-- Files as a program sees them. What is there need not be readable, and a path that cannot be
followed to its end counts as one at which there is nothing; so neither question answers the other. -/
structure Files where
  /-- Something, a file or a directory, is there. -/
  present : String → Bool
  /-- The text of a file. -/
  read : String → Except FileFault String

namespace Path

/-- The parts of a path between its slashes. -/
def parts : List Char → List (List Char)
  | [] => [[]]
  | c :: cs =>
    if c = '/' then [] :: parts cs
    else match parts cs with
      | [] => [[c]]
      | part :: more => (c :: part) :: more

/-- The last part that names something. -/
def fileName? (path : String) : Option (List Char) :=
  match ((parts path.toList).filter fun part => part ≠ [] ∧ part ≠ ['.']).getLast? with
  | some part => if part = ['.', '.'] then none else some part
  | none => none

/-- The extension of a path. -/
def extension? (path : String) : Option String :=
  match fileName? path with
  | none => none
  | some name =>
    let backward := name.reverse
    match backward.dropWhile (· != '.') with
    | [] | [_] => none
    | _ :: _ => some (String.ofList (backward.takeWhile (· != '.')).reverse)

/-- A path inside a directory. Nothing stands in front of the name when the directory has an empty
path. -/
def join (directory name : String) : String :=
  if directory.toList.getLast?.all (· = '/') then directory ++ name else directory ++ "/" ++ name

end Path

end MatlabFront
