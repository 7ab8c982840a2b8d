/-!
# JSON values

A value of the JSON format. Of the numbers only the natural ones that fit in 64 bits are told apart;
any other number is kept as written. The members of an object are kept in order, repeated names
included, because one reader refuses a repeated name and another takes the last one.
-/

namespace MatlabFront

/-- A JSON value. -/
inductive Json where
  | null
  | bool (value : Bool)
  /-- A natural number below `2 ^ 64`, written without point, exponent and sign. -/
  | natural (value : Nat)
  /-- Any other number, as written. -/
  | numeral (text : String)
  | string (value : String)
  | array (items : List Json)
  | object (members : List (String × Json))

namespace Json

/-- The first member of a name. -/
def member? (name : String) (members : List (String × Json)) : Option Json :=
  members.lookup name

/-- Keeps of the members that share a name only the last. -/
def lastMembers : List (String × Json) → List (String × Json)
  | [] => []
  | (name, value) :: members =>
    let later := lastMembers members
    if later.any (·.1 == name) then later else (name, value) :: later

mutual

/-- Takes the last of the members that share a name, in every object of a value. -/
def distinct : Json → Json
  | array items => array (distinctItems items)
  | object members => object (lastMembers (distinctMembers members))
  | value => value

/-- Takes the last of the members that share a name, in every value of a list. -/
def distinctItems : List Json → List Json
  | [] => []
  | item :: items => item.distinct :: distinctItems items

/-- Takes the last of the members that share a name, inside the value of every member. -/
def distinctMembers : List (String × Json) → List (String × Json)
  | [] => []
  | (name, value) :: members => (name, value.distinct) :: distinctMembers members

end

mutual

/-- The number of arrays and objects on the longest way down into a value. -/
def depth : Json → Nat
  | array items => depthOfItems items + 1
  | object members => depthOfMembers members + 1
  | _ => 0

/-- The largest depth in a list of values. -/
def depthOfItems : List Json → Nat
  | [] => 0
  | item :: items => max item.depth (depthOfItems items)

/-- The largest depth among the values of some members. -/
def depthOfMembers : List (String × Json) → Nat
  | [] => 0
  | (_, value) :: members => max value.depth (depthOfMembers members)

end

end Json

end MatlabFront
