import MatlabFront.Decimal
import MatlabFront.Document

/-!
# Numbers and dates of TOML

No setting is a number or a date, so these values are recognised and not kept: signed integers of 64
bits in four bases, fractions, and dates with times. A date counts as a table. Digits may be set apart
by single underscores.
-/

namespace MatlabFront.Toml

/-- Digits without the underscores between them; nothing if an underscore does not stand between two
digits, or if there is no digit. -/
def digits? (isDigit : Char → Bool) : List Char → Option (List Char)
  | [] => none
  | [c] => if isDigit c then some [c] else none
  | c :: d :: cs =>
    if isDigit c then
      if d = '_' then (digits? isDigit cs).map (c :: ·)
      else (digits? isDigit (d :: cs)).map (c :: ·)
    else none

/-- The value of a digit in a base up to sixteen. -/
def digitValue (c : Char) : Nat :=
  if c.isDigit then c.toNat - '0'.toNat
  else if 'a' ≤ c then c.toNat - 'a'.toNat + 10
  else c.toNat - 'A'.toNat + 10

/-- The number that digits write in a base. -/
def inBase (base : Nat) (digits : List Char) : Nat :=
  digits.foldl (fun value c => value * base + digitValue c) 0

/-- A digit of base sixteen. -/
def isHexDigit (c : Char) : Bool :=
  c.isDigit || ('a' ≤ c && c ≤ 'f') || ('A' ≤ c && c ≤ 'F')

/-- A digit of base eight. -/
def isOctalDigit (c : Char) : Bool := '0' ≤ c && c ≤ '7'

/-- A digit of base two. -/
def isBinaryDigit (c : Char) : Bool := c == '0' || c == '1'

/-- Decimal digits that begin with a zero only when there is no other. -/
def wholeDigits? (cs : List Char) : Option (List Char) :=
  match digits? Char.isDigit cs with
  | some ('0' :: _ :: _) => none
  | found => found

/-- A sign in front of a number, and the text behind it. -/
def sign : List Char → Option Char × List Char
  | '+' :: cs => (some '+', cs)
  | '-' :: cs => (some '-', cs)
  | cs => (none, cs)

/-- An integer of 64 bits. -/
def isInteger (cs : List Char) : Bool :=
  let inRange := fun base (found : Option (List Char)) =>
    found.any fun digits => decide (inBase base digits < Nat.pow 2 63)
  match cs with
  | '0' :: 'x' :: cs => inRange 16 (digits? isHexDigit cs)
  | '0' :: 'o' :: cs => inRange 8 (digits? isOctalDigit cs)
  | '0' :: 'b' :: cs => inRange 2 (digits? isBinaryDigit cs)
  | cs =>
    match sign cs with
    | (some '-', cs) =>
      (wholeDigits? cs).any fun digits => decide (inBase 10 digits ≤ Nat.pow 2 63)
    | (_, cs) => inRange 10 (wholeDigits? cs)

/-- An exponent, from its letter on. -/
def exponent? : List Char → Option Int
  | e :: cs =>
    if e = 'e' ∨ e = 'E' then
      let (mark, cs) := sign cs
      (digits? Char.isDigit cs).map fun digits =>
        let value : Int := Decimal.natural digits
        if mark = some '-' then -value else value
    else none
  | [] => none

/-- A fraction is not too large. One that is too far below zero stands for infinity. -/
def isBounded (mark : Option Char) (numeral : Decimal) : Bool :=
  mark == some '-' || numeral.isFinite

/-- A fraction: digits with a point, an exponent or both, or infinity, or no number. -/
def isFraction (cs : List Char) : Bool :=
  let (mark, cs) := sign cs
  if cs = ['i', 'n', 'f'] ∨ cs = ['n', 'a', 'n'] then true
  else
    let isWhole := fun (c : Char) => c.isDigit || c == '_'
    match wholeDigits? (cs.takeWhile isWhole), cs.dropWhile isWhole with
    | some whole, '.' :: rest =>
      match digits? Char.isDigit (rest.takeWhile isWhole), rest.dropWhile isWhole with
      | some fraction, [] => isBounded mark ⟨whole ++ fraction, -fraction.length⟩
      | some fraction, rest =>
        (exponent? rest).any fun exponent =>
          isBounded mark ⟨whole ++ fraction, exponent - fraction.length⟩
      | none, _ => false
    | some whole, rest => (exponent? rest).any fun exponent => isBounded mark ⟨whole, exponent⟩
    | none, _ => false

/-- Two digits that write a number within bounds. -/
def twoDigits? (least most : Nat) (a b : Char) : Option Nat :=
  if a.isDigit && b.isDigit then
    let value := digitValue a * 10 + digitValue b
    if least ≤ value ∧ value ≤ most then some value else none
  else none

/-- The number of days of a month. -/
def daysIn (year month : Nat) : Nat :=
  if month = 2 then
    if year % 4 = 0 ∧ (year % 100 ≠ 0 ∨ year % 400 = 0) then 29 else 28
  else if month = 4 ∨ month = 6 ∨ month = 9 ∨ month = 11 then 30
  else 31

/-- The text behind a date. -/
def behindDate? : List Char → Option (List Char)
  | y1 :: y2 :: y3 :: y4 :: '-' :: m1 :: m2 :: '-' :: d1 :: d2 :: rest => do
    if [y1, y2, y3, y4].all Char.isDigit then
      let month ← twoDigits? 1 12 m1 m2
      let _ ← twoDigits? 1 (daysIn (inBase 10 [y1, y2, y3, y4]) month) d1 d2
      some rest
    else none
  | _ => none

/-- The text behind a time of the day. -/
def behindTime? : List Char → Option (List Char)
  | h1 :: h2 :: ':' :: m1 :: m2 :: ':' :: s1 :: s2 :: rest => do
    let _ ← twoDigits? 0 23 h1 h2
    let _ ← twoDigits? 0 59 m1 m2
    let _ ← twoDigits? 0 60 s1 s2
    match rest with
    | '.' :: rest =>
      if (rest.takeWhile Char.isDigit).isEmpty then none else some (rest.dropWhile Char.isDigit)
    | rest => some rest
  | _ => none

/-- A distance from the standard time, or none. -/
def isOffset : List Char → Bool
  | [] => true
  | ['Z'] | ['z'] => true
  | [mark, h1, h2, ':', m1, m2] =>
    (mark == '+' || mark == '-') && (twoDigits? 0 23 h1 h2).isSome && (twoDigits? 0 59 m1 m2).isSome
  | _ => false

/-- A date, a time, or both. -/
def isDate (cs : List Char) : Bool :=
  match behindDate? cs with
  | some [] => true
  | some (mark :: rest) =>
    (mark == 'T' || mark == 't' || mark == ' ') && (behindTime? rest).any isOffset
  | none => behindTime? cs == some []

/-- The document of a date: a table with one part, which is none of any section of the settings. -/
def dateDocument : Document := .table [(some "date", .other)]

/-- The document of a value that is neither a text nor a collection. -/
def bareDocument? (cs : List Char) : Option Document :=
  if cs = ['t', 'r', 'u', 'e'] then some (.truth true)
  else if cs = ['f', 'a', 'l', 's', 'e'] then some (.truth false)
  else if isInteger cs || isFraction cs then some .other
  else if isDate cs then some dateDocument
  else none

end MatlabFront.Toml
