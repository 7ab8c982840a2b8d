import MatlabFront.Decimal
import MatlabFront.Document
import MatlabFront.Yaml.Character

/-!
# Plain scalars of YAML

What a scalar without quotes stands for. Truth values and null have a few spellings; integers and
fractions are recognised so that a text which reads as one is written in quotes.
-/

namespace MatlabFront.Yaml

/-- The spellings of null. -/
def isNull (text : String) : Bool :=
  text == "null" || text == "Null" || text == "NULL" || text == "~"

/-- The truth value of a spelling. -/
def truth? (text : String) : Option Bool :=
  if text = "true" ∨ text = "True" ∨ text = "TRUE" then some true
  else if text = "false" ∨ text = "False" ∨ text = "FALSE" then some false
  else none

/-- The document of a scalar without quotes. -/
def plainDocument (text : String) : Document :=
  if text.isEmpty then .blank
  else if isNull text then .null
  else match truth? text with
    | some value => .truth value
    | none => .word text

/-- A text without one leading sign. -/
def unsigned : List Char → List Char
  | '+' :: cs => cs
  | '-' :: cs => cs
  | cs => cs

/-- Several digits that begin with a zero are no number. -/
def isZeroPadded (cs : List Char) : Bool :=
  match unsigned cs with
  | '0' :: c :: cs => (c :: cs).all Char.isDigit
  | _ => false

/-- The digits of a base, at least one. -/
def isDigits (isDigit : Char → Bool) (cs : List Char) : Bool := !cs.isEmpty && cs.all isDigit

/-- A text that reads as an integer, in base ten or with the mark of another base. -/
def isInteger (cs : List Char) : Bool :=
  match unsigned cs with
  | '0' :: 'x' :: digits => isDigits isHexDigit digits
  | '0' :: 'o' :: digits => isDigits (fun c => '0' ≤ c && c ≤ '7') digits
  | '0' :: 'b' :: digits => isDigits (fun c => c == '0' || c == '1') digits
  | digits => isDigits Char.isDigit digits && !isZeroPadded cs

/-- The exponent of a numeral, from its letter on; nothing stands for zero. -/
def exponent? : List Char → Option Int
  | [] => some 0
  | e :: cs =>
    if e = 'e' ∨ e = 'E' then
      let digits := unsigned cs
      if isDigits Char.isDigit digits then
        let value : Int := Decimal.natural digits
        some (if cs.head? = some '-' then -value else value)
      else none
    else none

/-- A numeral with a point, an exponent or both, at least one digit, and no sign. -/
def decimal? (cs : List Char) : Option Decimal :=
  let whole := cs.takeWhile Char.isDigit
  let rest := cs.dropWhile Char.isDigit
  let (fraction, rest) := match rest with
    | '.' :: rest => (rest.takeWhile Char.isDigit, rest.dropWhile Char.isDigit)
    | rest => ([], rest)
  if (whole ++ fraction).isEmpty then none
  else (exponent? rest).map fun exponent => ⟨whole ++ fraction, exponent - fraction.length⟩

/-- A text that reads as a fraction: a finite numeral, infinity, or no number. -/
def isFraction (cs : List Char) : Bool :=
  let named := String.ofList cs
  if named == ".nan" || named == ".NaN" || named == ".NAN" then true
  else
    let body := String.ofList (unsigned cs)
    if body == ".inf" || body == ".Inf" || body == ".INF" then true
    else match decimal? (unsigned cs) with
      | some numeral => numeral.isFinite
      | none => false

/-- A text that a scalar without quotes would not keep as text. -/
def readsOtherwise (text : String) : Bool :=
  let cs := text.toList
  text.isEmpty || isNull text || (truth? text).isSome || isInteger cs || isZeroPadded cs
    || isFraction cs

end MatlabFront.Yaml
