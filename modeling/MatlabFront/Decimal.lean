/-!
# Decimal numerals

Numerals as digits and an exponent of ten. Formats that hold 64-bit binary fractions refuse a
numeral that rounds to no finite one, which is the case from halfway between the largest finite
number and the power of two behind it.
-/

namespace MatlabFront

/-- An unsigned decimal numeral: its digits without the point, and the power of ten that they are
taken times. -/
structure Decimal where
  digits : List Char
  exponent : Int

namespace Decimal

/-- The value of a digit. -/
def digitValue (c : Char) : Nat := c.toNat - '0'.toNat

/-- The number that decimal digits write. -/
def natural (digits : List Char) : Nat := digits.foldl (fun value c => value * 10 + digitValue c) 0

/-- The least number that rounds to no finite 64-bit binary fraction. -/
def ceiling : Nat := (Nat.pow 2 54 - 1) * Nat.pow 2 970

/-- A numeral rounds to a finite 64-bit binary fraction. The first tests settle the numerals whose
size is plain from their length, so that no large power is computed. -/
def isFinite (numeral : Decimal) : Bool :=
  let mantissa := natural numeral.digits
  if mantissa = 0 then true
  else if numeral.digits.length + numeral.exponent < 309 then true
  else if numeral.exponent > 400 then false
  else if numeral.exponent ≥ 0 then mantissa * Nat.pow 10 numeral.exponent.toNat < ceiling
  else mantissa < ceiling * Nat.pow 10 (-numeral.exponent).toNat

end Decimal

end MatlabFront
