import MatlabFront.Json

/-!
# Records and cases in JSON

How values of other types stand in JSON. A record is an object, of which members of other names are
ignored, or an array of all its fields in order. A case is an object with the name of the case as its
only member, or just the name when the case holds nothing. Several values held by a case are an array
of that length. An option is absent as `null`.
-/

namespace MatlabFront.Json

/-- A field of a record: its name, and whether it may be left out of an object. -/
structure FieldName where
  name : String
  optional : Bool

/-- A field that has to be there. -/
def required (name : String) : FieldName := ⟨name, false⟩

/-- A field that counts as `null` when it is left out. -/
def optional (name : String) : FieldName := ⟨name, true⟩

/-- The value of a field among the members of an object. -/
def field? (members : List (String × Json)) (field : FieldName) : Option Json :=
  match member? field.name members with
  | some value => some value
  | none => if field.optional then some .null else none

/-- The values of the fields of a record, in order. -/
def fields? (names : List FieldName) : Json → Option (List Json)
  | .object members => names.mapM (field? members)
  | .array items => if items.length = names.length then some items else none
  | _ => none

/-- The name of a case and what it holds. -/
def case? : Json → Option (String × Option Json)
  | .string name => some (name, none)
  | .object [(name, content)] => some (name, some content)
  | _ => none

/-- The values that a case holds in order. -/
def contents? : Json → Option (List Json)
  | .array items => some items
  | _ => none

/-- The name of a case that holds nothing. -/
def atom? (value : Json) : Option String :=
  match value.case? with
  | some (name, none) => some name
  | some (name, some .null) => some name
  | _ => none

/-- A natural number. -/
def natural? : Json → Option Nat
  | .natural value => some value
  | _ => none

/-- A text. -/
def text? : Json → Option String
  | .string value => some value
  | _ => none

/-- A truth value. -/
def truth? : Json → Option Bool
  | .bool value => some value
  | _ => none

/-- A list of values that are read alike. -/
def list? {α : Type} (read : Json → Option α) : Json → Option (List α)
  | .array items => items.mapM read
  | _ => none

/-- A value, or `null` for none. -/
def option? {α : Type} (read : Json → Option α) : Json → Option (Option α)
  | .null => some none
  | value => (read value).map some

end MatlabFront.Json
