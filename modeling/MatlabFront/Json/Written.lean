import MatlabFront.Decimal
import MatlabFront.Json

/-!
# JSON as written

What the text of a JSON value says, before it is asked whether the parts have values. A string has one
if its escapes make whole characters, a number if it rounds to a finite 64-bit binary fraction, and
arrays and objects if they are not nested too deep. What is only skipped need not have a value.
-/

namespace MatlabFront.Json

/-- A part of a string: a character, or half of one that an escape writes. -/
inductive StringPart where
  | char (value : Char)
  | half (code : Nat)
  deriving DecidableEq

/-- The characters of a string. A first half needs a second half directly behind it. -/
def stringChars? : List StringPart → Option (List Char)
  | [] => some []
  | .char c :: parts => (stringChars? parts).map (c :: ·)
  | .half high :: .half low :: parts =>
    if high < 0xdc00 ∧ 0xdc00 ≤ low then
      (stringChars? parts).map
        (Char.ofNat (0x10000 + (high - 0xd800) * 0x400 + (low - 0xdc00)) :: ·)
    else none
  | .half _ :: _ => none

/-- The value of a string. -/
def stringValue? (parts : List StringPart) : Option String := (stringChars? parts).map String.ofList

/-- A number as it is written. -/
structure Numeral where
  text : List Char
  negative : Bool
  whole : List Char
  fraction : Option (List Char)
  exponent : Option Int

/-- The size of a number. -/
def Numeral.size (numeral : Numeral) : Decimal :=
  let fraction := numeral.fraction.getD []
  ⟨numeral.whole ++ fraction, numeral.exponent.getD 0 - fraction.length⟩

/-- The value of a number. -/
def Numeral.value? (numeral : Numeral) : Option Json :=
  if !numeral.size.isFinite then none
  else if !numeral.negative ∧ numeral.fraction.isNone ∧ numeral.exponent.isNone
      ∧ Decimal.natural numeral.whole < Nat.pow 2 64 then
    some (.natural (Decimal.natural numeral.whole))
  else some (.numeral (String.ofList numeral.text))

/-- A value as it is written. -/
inductive Written where
  | null
  | bool (value : Bool)
  | number (numeral : Numeral)
  | string (parts : List StringPart)
  | array (items : List Written)
  /-- Members in order, repeated names included. -/
  | object (members : List (List StringPart × Written))

mutual

/-- The value of what is written, with arrays and objects nested down to some depth. -/
def Written.json? (depth : Nat) : Written → Option Json
  | .null => some .null
  | .bool value => some (.bool value)
  | .number written => written.value?
  | .string parts => (stringValue? parts).map .string
  | .array items => if depth = 0 then none else (Written.items? (depth - 1) items).map .array
  | .object members =>
    if depth = 0 then none else (Written.members? (depth - 1) members).map .object

/-- The values of the items of an array. -/
def Written.items? (depth : Nat) : List Written → Option (List Json)
  | [] => some []
  | item :: items => do some ((← item.json? depth) :: (← Written.items? depth items))

/-- The values of the members of an object. -/
def Written.members? (depth : Nat) :
    List (List StringPart × Written) → Option (List (String × Json))
  | [] => some []
  | (name, value) :: members => do
    some ((← stringValue? name, ← value.json? depth) :: (← Written.members? depth members))

end

end MatlabFront.Json
