import MatlabFront.Json.Written

/-!
# Reading JSON text

Reads the text of one value. Controls in strings have to be escaped. Each reader returns what is
written and the characters behind it.
-/

namespace MatlabFront.Json

/-- The characters that may stand between the parts of a value. -/
def isBlank (c : Char) : Bool := c == ' ' || c == '\t' || c == '\n' || c == '\r'

/-- The text behind leading blanks. -/
def skipBlanks (cs : List Char) : List Char := cs.dropWhile isBlank

/-- The text behind an expected word. -/
def expectWord : List Char → List Char → Option (List Char)
  | [], cs => some cs
  | w :: ws, c :: cs => if w = c then expectWord ws cs else none
  | _ :: _, [] => none

/-- The value of a hexadecimal digit. -/
def hexValue? (c : Char) : Option Nat :=
  if c.isDigit then some (c.toNat - '0'.toNat)
  else if 'a' ≤ c ∧ c ≤ 'f' then some (c.toNat - 'a'.toNat + 10)
  else if 'A' ≤ c ∧ c ≤ 'F' then some (c.toNat - 'A'.toNat + 10)
  else none

/-- The number that four hexadecimal digits write. -/
def codeUnit? : List Char → Option (Nat × List Char)
  | a :: b :: c :: d :: rest => do
    let a ← hexValue? a
    let b ← hexValue? b
    let c ← hexValue? c
    let d ← hexValue? d
    some (((a * 16 + b) * 16 + c) * 16 + d, rest)
  | _ => none

/-- The part of a string that a code stands for. -/
def codePart (code : Nat) : StringPart :=
  if 0xd800 ≤ code ∧ code < 0xe000 then .half code else .char (Char.ofNat code)

/-- The part of a string that an escape stands for, behind its backslash. -/
def escape? : List Char → Option (StringPart × List Char)
  | '"' :: cs => some (.char '"', cs)
  | '\\' :: cs => some (.char '\\', cs)
  | '/' :: cs => some (.char '/', cs)
  | 'b' :: cs => some (.char '\x08', cs)
  | 'f' :: cs => some (.char '\x0c', cs)
  | 'n' :: cs => some (.char '\n', cs)
  | 'r' :: cs => some (.char '\r', cs)
  | 't' :: cs => some (.char '\t', cs)
  | 'u' :: cs => (codeUnit? cs).map fun (code, rest) => (codePart code, rest)
  | _ => none

/-- The parts of a string, behind its opening quote. -/
def stringBody? (fuel : Nat) (cs : List Char) : Option (List StringPart × List Char) :=
  match fuel, cs with
  | _ + 1, '"' :: rest => some ([], rest)
  | fuel + 1, '\\' :: rest => do
    let (part, rest) ← escape? rest
    let (parts, rest) ← stringBody? fuel rest
    some (part :: parts, rest)
  | fuel + 1, c :: rest =>
    if c.toNat < 0x20 then none
    else do
      let (parts, rest) ← stringBody? fuel rest
      some (.char c :: parts, rest)
  | _, _ => none

/-- A string, behind its opening quote. -/
def string? (cs : List Char) : Option (List StringPart × List Char) :=
  stringBody? (cs.length + 1) cs

/-- The digits at the front of a text, at least one. -/
def digits? (cs : List Char) : Option (List Char × List Char) :=
  match cs.takeWhile Char.isDigit with
  | [] => none
  | digits => some (digits, cs.dropWhile Char.isDigit)

/-- The digits in front of the point: a lone zero, or digits that begin with no zero. -/
def wholePart? (cs : List Char) : Option (List Char × List Char) :=
  match digits? cs with
  | some ('0' :: _ :: _, _) => none
  | found => found

/-- The digits behind a point, if there is one. -/
def fraction? : List Char → Option (Option (List Char) × List Char)
  | '.' :: cs => (digits? cs).map fun (digits, rest) => (some digits, rest)
  | cs => some (none, cs)

/-- An exponent, if there is one. -/
def exponent? : List Char → Option (Option Int × List Char)
  | e :: cs =>
    if e = 'e' ∨ e = 'E' then
      let (negative, cs) := match cs with
        | '-' :: cs => (true, cs)
        | '+' :: cs => (false, cs)
        | cs => (false, cs)
      (digits? cs).map fun (digits, rest) =>
        let value : Int := Decimal.natural digits
        (some (if negative then -value else value), rest)
    else some (none, e :: cs)
  | [] => some (none, [])

/-- A number. -/
def number? (cs : List Char) : Option (Numeral × List Char) := do
  let (negative, unsigned) := match cs with
    | '-' :: cs => (true, cs)
    | cs => (false, cs)
  let (whole, rest) ← wholePart? unsigned
  let (fraction, rest) ← fraction? rest
  let (exponent, rest) ← exponent? rest
  some (⟨cs.take (cs.length - rest.length), negative, whole, fraction, exponent⟩, rest)

mutual

/-- A value, blanks in front of it allowed. -/
def value? (fuel : Nat) (cs : List Char) : Option (Written × List Char) :=
  match fuel with
  | 0 => none
  | fuel + 1 =>
    match skipBlanks cs with
    | [] => none
    | c :: rest =>
      if c = 'n' then (expectWord ['u', 'l', 'l'] rest).map (.null, ·)
      else if c = 't' then (expectWord ['r', 'u', 'e'] rest).map (.bool true, ·)
      else if c = 'f' then (expectWord ['a', 'l', 's', 'e'] rest).map (.bool false, ·)
      else if c = '"' then (string? rest).map fun (parts, rest) => (.string parts, rest)
      else if c = '[' then
        match skipBlanks rest with
        | ']' :: rest => some (.array [], rest)
        | _ => (items? fuel rest).map fun (items, rest) => (.array items, rest)
      else if c = '\x7b' then
        match skipBlanks rest with
        | '\x7d' :: rest => some (.object [], rest)
        | _ => (members? fuel rest).map fun (members, rest) => (.object members, rest)
      else (number? (c :: rest)).map fun (number, rest) => (.number number, rest)

/-- The items of an array, at least one, and its closing bracket. -/
def items? (fuel : Nat) (cs : List Char) : Option (List Written × List Char) :=
  match fuel with
  | 0 => none
  | fuel + 1 => do
    let (item, rest) ← value? fuel cs
    match skipBlanks rest with
    | ']' :: rest => some ([item], rest)
    | ',' :: rest =>
      let (items, rest) ← items? fuel rest
      some (item :: items, rest)
    | _ => none

/-- The members of an object, at least one, and its closing brace. -/
def members? (fuel : Nat) (cs : List Char) :
    Option (List (List StringPart × Written) × List Char) :=
  match fuel with
  | 0 => none
  | fuel + 1 =>
    match skipBlanks cs with
    | '"' :: rest => do
      let (name, rest) ← string? rest
      match skipBlanks rest with
      | ':' :: rest =>
        let (value, rest) ← value? fuel rest
        match skipBlanks rest with
        | '\x7d' :: rest => some ([(name, value)], rest)
        | ',' :: rest =>
          let (members, rest) ← members? fuel rest
          some ((name, value) :: members, rest)
        | _ => none
      | _ => none
    | _ => none

end

/-- What a text writes. -/
def Written.ofText? (text : String) : Option Written := do
  let cs := text.toList
  let (written, rest) ← value? (2 * cs.length + 2) cs
  if (skipBlanks rest).isEmpty then some written else none

/-- The depth to which the arrays and objects of a value may be nested. -/
def maxDepth : Nat := 127

/-- The value that a text writes, with repeated names as they are. -/
def ofText? (text : String) : Option Json := do (← Written.ofText? text).json? maxDepth

end MatlabFront.Json
