import MatlabFront.Json

/-!
# Values as data

A datum shows how a value of some type is built: records with named fields in order, choices with
the name of the case, lists and options. Every written form of a tree comes from its datum: JSON,
tagged blocks, and the form for inspection.
-/

namespace MatlabFront

/-- A value as data. -/
inductive Datum where
  | text (value : String)
  | natural (value : Nat)
  | truth (value : Bool)
  | list (items : List Datum)
  | absent
  | present (content : Datum)
  /-- A record with the name of its type. -/
  | record (name : String) (fields : List (String × Datum))
  /-- A case that holds nothing. -/
  | atom (name : String)
  /-- A case that holds some values in order, at least one. -/
  | case (name : String) (first : Datum) (more : List Datum)
  /-- A case that holds named fields. -/
  | recordCase (name : String) (fields : List (String × Datum))

namespace Datum

mutual

/-- The JSON value of a datum: records are objects, a case is an object with its name as the only
member, a case that holds several values holds them as an array, and options are bare or `null`. -/
def toJson : Datum → Json
  | text value => .string value
  | natural value => .natural value
  | truth value => .bool value
  | list items => .array (itemsToJson items)
  | absent => .null
  | present content => content.toJson
  | record _ fields => .object (fieldsToJson fields)
  | atom name => .string name
  | case name first [] => .object [(name, first.toJson)]
  | case name first (second :: more) =>
    .object [(name, .array (first.toJson :: second.toJson :: itemsToJson more))]
  | recordCase name fields => .object [(name, .object (fieldsToJson fields))]

/-- The JSON values of some data. -/
def itemsToJson : List Datum → List Json
  | [] => []
  | item :: items => item.toJson :: itemsToJson items

/-- The members of an object for some fields. -/
def fieldsToJson : List (String × Datum) → List (String × Json)
  | [] => []
  | (name, value) :: fields => (name, value.toJson) :: fieldsToJson fields

end

end Datum

end MatlabFront
