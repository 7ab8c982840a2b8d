import MatlabFront.Json

/-!
# JSON text

Writes values as text, in one line without blanks or with one member a line. Only what has to be
escaped in a string is escaped: the quote, the backslash and the controls.
-/

namespace MatlabFront.Json

/-- The lower-case hexadecimal digit of a number below sixteen. -/
def hexDigit (value : Nat) : Char :=
  if value < 10 then Char.ofNat ('0'.toNat + value) else Char.ofNat ('a'.toNat + (value - 10))

/-- One character inside a string. -/
def escapeChar (c : Char) : List Char :=
  if c = '"' then ['\\', '"']
  else if c = '\\' then ['\\', '\\']
  else if c = '\x08' then ['\\', 'b']
  else if c = '\x0c' then ['\\', 'f']
  else if c = '\n' then ['\\', 'n']
  else if c = '\r' then ['\\', 'r']
  else if c = '\t' then ['\\', 't']
  else if c.toNat < 0x20 then ['\\', 'u', '0', '0', hexDigit (c.toNat / 16), hexDigit (c.toNat % 16)]
  else [c]

/-- A string in quotes. -/
def quote (value : String) : String :=
  "\"" ++ String.ofList (value.toList.flatMap escapeChar) ++ "\""

mutual

/-- A value in one line. -/
def compact : Json → String
  | null => "null"
  | bool value => if value then "true" else "false"
  | natural value => toString value
  | numeral text => text
  | string value => quote value
  | array items => "[" ++ compactItems items ++ "]"
  | object members => "\x7b" ++ compactMembers members ++ "\x7d"

/-- Values in one line, with commas in between. -/
def compactItems : List Json → String
  | [] => ""
  | [item] => item.compact
  | item :: items => item.compact ++ "," ++ compactItems items

/-- Members in one line, with commas in between. -/
def compactMembers : List (String × Json) → String
  | [] => ""
  | [(name, value)] => quote name ++ ":" ++ value.compact
  | (name, value) :: members => quote name ++ ":" ++ value.compact ++ "," ++ compactMembers members

end

/-- A new line, indented by some steps of two blanks. -/
def newLine (depth : Nat) : String := "\n" ++ String.ofList (List.replicate (2 * depth) ' ')

mutual

/-- A value with one item or member a line, as deep as it stands. -/
def indentedAt (depth : Nat) : Json → String
  | null => "null"
  | bool value => if value then "true" else "false"
  | natural value => toString value
  | numeral text => text
  | string value => quote value
  | array items =>
    match items with
    | [] => "[]"
    | _ :: _ => "[" ++ indentedItems (depth + 1) items ++ newLine depth ++ "]"
  | object members =>
    match members with
    | [] => "\x7b\x7d"
    | _ :: _ => "\x7b" ++ indentedMembers (depth + 1) members ++ newLine depth ++ "\x7d"

/-- Values that each begin a line. -/
def indentedItems (depth : Nat) : List Json → String
  | [] => ""
  | [item] => newLine depth ++ item.indentedAt depth
  | item :: items => newLine depth ++ item.indentedAt depth ++ "," ++ indentedItems depth items

/-- Members that each begin a line. -/
def indentedMembers (depth : Nat) : List (String × Json) → String
  | [] => ""
  | [(name, value)] => newLine depth ++ quote name ++ ": " ++ value.indentedAt depth
  | (name, value) :: members =>
    newLine depth ++ quote name ++ ": " ++ value.indentedAt depth ++ ","
      ++ indentedMembers depth members

end

/-- A value with one item or member a line. -/
def indented (value : Json) : String := value.indentedAt 0

end MatlabFront.Json
