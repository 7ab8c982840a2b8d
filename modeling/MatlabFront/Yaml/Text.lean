import MatlabFront.Datum
import MatlabFront.Yaml.Scalar

/-!
# Writing YAML

Writes a datum in block style. A case is a tag on its content, and a tag cannot stand on a value that
is itself a case. Lists are not indented below their key. Content without a tag begins on the line of
the entry that holds it; behind a tag it begins on a new line.

A scalar is written plain where it can be, else in single quotes, and in double quotes only for
characters that single quotes cannot show.
-/

namespace MatlabFront.Yaml

/-- A first character that would begin something other than a plain scalar. -/
def isLeadingIndicator (c : Char) (next : Option Char) : Bool :=
  "#,[]&*!|>'\"%@\x60\x7b\x7d".toList.contains c || ((c == '?' || c == ':' || c == '-') && isGap next)

/-- Somewhere behind its first character a text holds a colon in front of a gap, or the sign of a
comment behind one. -/
def holdsIndicator : List Char → Bool
  | a :: b :: cs =>
    (b == ':' && isGap cs.head?) || (b == '#' && isGap (some a)) || holdsIndicator (b :: cs)
  | _ => false

/-- A text begins with the mark of a document. -/
def startsMarker : List Char → Bool
  | '-' :: '-' :: '-' :: _ => true
  | '.' :: '.' :: '.' :: _ => true
  | _ => false

/-- A text without quotes would not be read back as it is. -/
def needsQuotes (cs : List Char) : Bool :=
  match cs with
  | [] => false
  | c :: rest =>
    startsMarker cs || isLeadingIndicator c rest.head? || holdsIndicator cs
      || isGap cs.head? || cs.getLast? == some ' ' || cs.any isBreak

/-- A blank and a line end stand side by side. -/
def breaksAtBlank : List Char → Bool
  | a :: b :: cs => (a == ' ' && isBreak b) || (isBreak a && b == ' ') || breaksAtBlank (b :: cs)
  | _ => false

/-- A text that single quotes cannot show. -/
def needsEscapes (cs : List Char) : Bool :=
  cs.contains '\n' || cs.any (!isPrintable ·) || breaksAtBlank cs

/-- A text in single quotes: quotes are doubled, and a line that begins inside is indented. -/
def singleQuoted (indent : Nat) (afterBreak : Bool) : List Char → List Char
  | [] => ['\'']
  | c :: cs =>
    let lead := if afterBreak && !isBreak c then List.replicate indent ' ' else []
    lead ++ (if c = '\'' then ['\'', '\''] else [c]) ++ singleQuoted indent (isBreak c) cs

/-- The upper-case hexadecimal digits of a number, at least some of them. -/
def hexDigits (width : Nat) (value : Nat) : List Char :=
  let digits := (Nat.toDigits 16 value).map Char.toUpper
  List.replicate (width - digits.length) '0' ++ digits

/-- A character in double quotes. -/
def escaped (c : Char) : List Char :=
  if c = '\x00' then ['\\', '0']
  else if c = '\x07' then ['\\', 'a']
  else if c = '\x08' then ['\\', 'b']
  else if c = '\t' then ['\\', 't']
  else if c = '\n' then ['\\', 'n']
  else if c = '\x0b' then ['\\', 'v']
  else if c = '\x0c' then ['\\', 'f']
  else if c = '\r' then ['\\', 'r']
  else if c = '\x1b' then ['\\', 'e']
  else if c = '"' then ['\\', '"']
  else if c = '\\' then ['\\', '\\']
  else if c = '\u0085' then ['\\', 'N']
  else if c = '\u2028' then ['\\', 'L']
  else if c = '\u2029' then ['\\', 'P']
  else if isPrintable c then [c]
  else if c.toNat ≤ 0xff then '\\' :: 'x' :: hexDigits 2 c.toNat
  else if c.toNat ≤ 0xffff then '\\' :: 'u' :: hexDigits 4 c.toNat
  else '\\' :: 'U' :: hexDigits 8 c.toNat

/-- A scalar in the plainest style that keeps it. -/
def scalar (indent : Nat) (text : String) : String :=
  let cs := text.toList
  if needsEscapes cs then "\"" ++ String.ofList (cs.flatMap escaped) ++ "\""
  else if readsOtherwise text || needsQuotes cs then
    "'" ++ String.ofList (singleQuoted indent false cs)
  else text

/-- Where a value is written. -/
inductive Place where
  /-- Behind the colon of a key. -/
  | entry
  /-- Behind the dash of an item. -/
  | item
  deriving DecidableEq

/-- Blanks. -/
def blanks (count : Nat) : String := String.ofList (List.replicate count ' ')

/-- A tag behind a blank, if there is one. -/
def tagText : Option String → String
  | none => ""
  | some name => " !" ++ name

/-- Puts lines below each other. Without a tag the first of them stays on the line of a dash. -/
def stack (tag : Option String) (place : Place) (indent : Nat) (lines : List String) : String :=
  match tag, place, lines with
  | none, .item, first :: more =>
    " " ++ first ++ String.join (more.map fun line => blanks indent ++ line)
  | tag, _, lines => tagText tag ++ "\n" ++ String.join (lines.map fun line => blanks indent ++ line)

mutual

/-- What is written behind a colon or a dash that stands in a column; nothing if a case holds a
case. -/
def value? (tag : Option String) (place : Place) (column : Nat) : Datum → Option String
  | .text value => some (tagText tag ++ " " ++ scalar column value ++ "\n")
  | .natural value => some (tagText tag ++ " " ++ toString value ++ "\n")
  | .truth value => some (tagText tag ++ " " ++ (if value then "true" else "false") ++ "\n")
  | .absent => some (tagText tag ++ " null\n")
  | .present content => value? tag place column content
  | .list items =>
    match items with
    | [] => some (tagText tag ++ " []\n")
    | _ :: _ =>
      let indent := if place = .entry then column else column + 2
      (items? indent items).map (stack tag place indent)
  | .record _ fields => (entries? (column + 2) fields).map (stack tag place (column + 2))
  | .atom name => some (tagText tag ++ " " ++ scalar column name ++ "\n")
  | .case name first more =>
    match tag, more with
    | some _, _ => none
    | none, [] => value? (some name) place column first
    | none, _ :: _ => do
      let indent := if place = .entry then column else column + 2
      let first ← value? none .item indent first
      let more ← items? indent more
      some (stack (some name) place indent (("-" ++ first) :: more))
  | .recordCase name fields =>
    match tag with
    | some _ => none
    | none => (entries? (column + 2) fields).map (stack (some name) place (column + 2))

/-- The items of a list whose dashes stand in a column. -/
def items? (column : Nat) : List Datum → Option (List String)
  | [] => some []
  | item :: items => do
    let text ← value? none .item column item
    let more ← items? column items
    some (("-" ++ text) :: more)

/-- The fields of a record whose names stand in a column. -/
def entries? (column : Nat) : List (String × Datum) → Option (List String)
  | [] => some []
  | (name, value) :: fields => do
    let text ← value? none .entry column value
    let more ← entries? column fields
    some ((name ++ ":" ++ text) :: more)

end

/-- The text of a record; nothing if a case in it holds a case. -/
def text? : Datum → Option String
  | .record _ fields => (entries? 0 fields).map String.join
  | _ => none

end MatlabFront.Yaml
