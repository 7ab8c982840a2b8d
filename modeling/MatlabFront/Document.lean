import MatlabFront.Json
import MatlabFront.Json.Written

/-!
# Settings documents

What a settings file says, whatever format it is written in. The formats differ in a few places, and
a document keeps these apart: a value that is left empty can stand for an empty table, a value that
is written as null cannot, and only some formats can write a choice as a table or with a tag. A part
that no setting is made of need not have a value of its own.
-/

namespace MatlabFront

/-- The content of a settings file, or of a part of one. -/
inductive Document where
  /-- A value that is left empty. -/
  | blank
  /-- A value that is written as null. -/
  | null
  | truth (value : Bool)
  | word (text : String)
  /-- A number, or any other value that no setting takes. -/
  | other
  | list (items : List Document)
  /-- Entries in order, repeated names included. A key that is no text names none. -/
  | table (entries : List (Option String × Document))
  /-- A value marked with the name of a case. -/
  | tagged (name : String) (content : Document)

mutual

/-- The document of a JSON value. -/
def Document.ofJson : Json → Document
  | .null => .null
  | .bool value => .truth value
  | .natural _ | .numeral _ => .other
  | .string value => .word value
  | .array items => .list (Document.ofJsonItems items)
  | .object members => .table (Document.ofJsonMembers members)

/-- The documents of some JSON values. -/
def Document.ofJsonItems : List Json → List Document
  | [] => []
  | item :: items => .ofJson item :: Document.ofJsonItems items

/-- The entries of a table for the members of an object. -/
def Document.ofJsonMembers : List (String × Json) → List (Option String × Document)
  | [] => []
  | (name, value) :: members => (some name, .ofJson value) :: Document.ofJsonMembers members

end

mutual

/-- The document of a JSON text. What a setting does not take may be without a value. -/
def Document.ofWritten : Json.Written → Document
  | .null => .null
  | .bool value => .truth value
  | .number _ => .other
  | .string parts => (Json.stringValue? parts).elim .other .word
  | .array items => .list (Document.ofWrittenItems items)
  | .object members => .table (Document.ofWrittenMembers members)

/-- The documents of the items of an array. -/
def Document.ofWrittenItems : List Json.Written → List Document
  | [] => []
  | item :: items => .ofWritten item :: Document.ofWrittenItems items

/-- The entries of a table for the members of an object. -/
def Document.ofWrittenMembers :
    List (List Json.StringPart × Json.Written) → List (Option String × Document)
  | [] => []
  | (name, value) :: members =>
    (Json.stringValue? name, .ofWritten value) :: Document.ofWrittenMembers members

end

end MatlabFront
