import MatlabFront.Datum
import MatlabFront.Text.Quoted

/-!
# Data for inspection

The form of a value that shows the names of its types and cases, in one line or with one part a
line. With one part a line every part ends with a comma.
-/

namespace MatlabFront.Datum

mutual

/-- A datum in one line. -/
def inspect : Datum → String
  | text value => Text.quoted value
  | natural value => toString value
  | truth value => if value then "true" else "false"
  | list items => "[" ++ inspectItems items ++ "]"
  | absent => "None"
  | present content => "Some(" ++ content.inspect ++ ")"
  | record name fields => name ++ " \x7b " ++ inspectFields fields ++ " \x7d"
  | atom name => name
  | case name first [] => name ++ "(" ++ first.inspect ++ ")"
  | case name first (second :: more) =>
    name ++ "(" ++ first.inspect ++ ", " ++ second.inspect
      ++ (match more with
        | [] => ""
        | _ :: _ => ", " ++ inspectItems more) ++ ")"
  | recordCase name fields => name ++ " \x7b " ++ inspectFields fields ++ " \x7d"

/-- Data in one line, with commas in between. -/
def inspectItems : List Datum → String
  | [] => ""
  | [item] => item.inspect
  | item :: items => item.inspect ++ ", " ++ inspectItems items

/-- Fields in one line, with commas in between. -/
def inspectFields : List (String × Datum) → String
  | [] => ""
  | [(name, value)] => name ++ ": " ++ value.inspect
  | (name, value) :: fields => name ++ ": " ++ value.inspect ++ ", " ++ inspectFields fields

end

/-- A new line, indented by some steps of four blanks. -/
def newLine (depth : Nat) : String := "\n" ++ String.ofList (List.replicate (4 * depth) ' ')

mutual

/-- A datum with one part a line, as deep as it stands. -/
def inspectAt (depth : Nat) : Datum → String
  | text value => Text.quoted value
  | natural value => toString value
  | truth value => if value then "true" else "false"
  | list items =>
    match items with
    | [] => "[]"
    | _ :: _ => "[" ++ itemLines (depth + 1) items ++ newLine depth ++ "]"
  | absent => "None"
  | present content =>
    "Some(" ++ newLine (depth + 1) ++ content.inspectAt (depth + 1) ++ "," ++ newLine depth ++ ")"
  | record name fields => name ++ " \x7b" ++ fieldLines (depth + 1) fields ++ newLine depth ++ "\x7d"
  | atom name => name
  | case name first more =>
    name ++ "(" ++ newLine (depth + 1) ++ first.inspectAt (depth + 1) ++ ","
      ++ itemLines (depth + 1) more ++ newLine depth ++ ")"
  | recordCase name fields =>
    name ++ " \x7b" ++ fieldLines (depth + 1) fields ++ newLine depth ++ "\x7d"

/-- Data that each take a line. -/
def itemLines (depth : Nat) : List Datum → String
  | [] => ""
  | item :: items => newLine depth ++ item.inspectAt depth ++ "," ++ itemLines depth items

/-- Fields that each take a line. -/
def fieldLines (depth : Nat) : List (String × Datum) → String
  | [] => ""
  | (name, value) :: fields =>
    newLine depth ++ name ++ ": " ++ value.inspectAt depth ++ "," ++ fieldLines depth fields

end

/-- A datum with one part a line. -/
def inspectLines (datum : Datum) : String := datum.inspectAt 0

end MatlabFront.Datum
