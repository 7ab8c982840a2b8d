import MatlabFront.Datum

/-!
# Writing TOML

Writes a record of records as tables: one heading for each inner record, with its fields below it and
an empty line between tables. The texts written are words without quotes or controls.
-/

namespace MatlabFront.Toml

/-- The value of a field; only texts, numbers and truth values stand in a table. -/
def value : Datum → String
  | .text text | .atom text => "\"" ++ text ++ "\""
  | .natural number => toString number
  | .truth truth => if truth then "true" else "false"
  | _ => ""

/-- The lines of the fields of a table. -/
def fieldLines (fields : List (String × Datum)) : String :=
  String.join (fields.map fun (name, datum) => name ++ " = " ++ value datum ++ "\n")

/-- A table with its heading. -/
def table : String × Datum → String
  | (name, .record _ fields) => "[" ++ name ++ "]\n" ++ fieldLines fields
  | (name, datum) => name ++ " = " ++ value datum ++ "\n"

/-- The tables of a record, with an empty line in between. -/
def text : Datum → String
  | .record _ fields => String.intercalate "\n" (fields.map table)
  | _ => ""

end MatlabFront.Toml
