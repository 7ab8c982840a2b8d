/-!
# Quoted literals

A quoted literal is written between two delimiters, and a delimiter inside it is written twice.
It may not contain a newline. `closingRun` finds where a literal closes, `enclose` writes the
literal of a value and `unquote` returns the value of a literal.
-/

namespace MatlabFront.Literal

/-- How far a literal reaches behind its opening delimiter. -/
structure Reach where
  /-- Whether a closing delimiter was found before the end of the line. -/
  closed : Bool
  /-- The number of characters behind the opening delimiter, a closing one included. -/
  length : Nat
  deriving DecidableEq

/-- Moves a reach further by some characters. -/
def Reach.after (count : Nat) (reach : Reach) : Reach := { reach with length := reach.length + count }

/-- Follows a literal from behind its opening delimiter to its closing delimiter, taking doubled
delimiters as one character of the value; without one it stops at the end of the line. -/
def closingRun (quote : Char) : List Char → Reach
  | [] => ⟨false, 0⟩
  | c :: cs =>
    if c = '\n' then ⟨false, 0⟩
    else if c = quote then
      match cs with
      | [] => ⟨true, 1⟩
      | d :: rest => if d = quote then (closingRun quote rest).after 2 else ⟨true, 1⟩
    else (closingRun quote cs).after 1

/-- Writes every delimiter in a value twice. -/
def double (quote : Char) : List Char → List Char
  | [] => []
  | c :: cs => if c = quote then c :: c :: double quote cs else c :: double quote cs

/-- Reads every doubled delimiter as one, from left to right. -/
def collapse (quote : Char) : List Char → List Char
  | [] => []
  | c :: cs =>
    if c = quote then
      match cs with
      | [] => [c]
      | d :: rest => if d = quote then c :: collapse quote rest else c :: d :: collapse quote rest
    else c :: collapse quote cs

/-- The literal of a value. -/
def enclose (quote : Char) (value : List Char) : List Char :=
  quote :: (double quote value ++ [quote])

/-- Drops a last character if it is the delimiter. -/
def dropClosing (quote : Char) (body : List Char) : List Char :=
  if body.getLast? = some quote then body.dropLast else body

/-- The value of a literal: its first character is the delimiter, one at the end closes it, and
doubled ones in between stand for one. -/
def valueOf : List Char → List Char
  | [] => []
  | quote :: body => collapse quote (dropClosing quote body)

/-- The value of a literal given as a string. -/
def unquote (text : String) : String := String.ofList (valueOf text.toList)

/-- Doubled delimiters are read back as written. -/
theorem collapse_double (quote : Char) (value : List Char) :
    collapse quote (double quote value) = value := by
  induction value with
  | nil => rfl
  | cons c cs ih =>
    by_cases h : c = quote
    · simp [double, collapse, h, ih]
    · rw [double, if_neg h, collapse.eq_def]
      simp [h, ih]

end MatlabFront.Literal
