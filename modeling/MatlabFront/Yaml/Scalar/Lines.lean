import MatlabFront.Yaml.Glyph

/-!
# Scalars in lines

A scalar in lines stands below its sign, all its lines indented alike. The signs behind the first one
say how the line ends at its end are treated and, if need be, how deep the lines are indented. Line
ends inside are kept as they are or, in the other style, folded between lines that do not begin with a
blank.
-/

namespace MatlabFront.Yaml

/-- How the line ends at the end of a scalar are treated. -/
inductive Chomping where
  /-- One is kept. -/
  | clip
  | strip
  | keep
  deriving DecidableEq

/-- How the line ends are treated for a sign. -/
def Chomping.ofChar? (c : Char) : Option Chomping :=
  if c = '-' then some .strip else if c = '+' then some .keep else none

/-- What the signs behind the sign of a scalar in lines say. -/
structure Header where
  chomping : Chomping
  /-- How much deeper than the collection around it the scalar is indented. -/
  increment : Option Nat

/-- The number of an indentation sign. -/
def increment? (c : Char) : Option Nat := if c.isDigit then some (hexValue c) else none

/-- The header of a scalar in lines, and the text behind it. The two signs stand in any order. -/
def header (text : List Glyph) : Header × List Glyph :=
  match (firstChar? text).bind Chomping.ofChar?, (firstChar? text).bind increment? with
  | some chomping, _ =>
    match (firstChar? text.tail).bind increment? with
    | some increment => (⟨chomping, some increment⟩, text.tail.tail)
    | none => (⟨chomping, none⟩, text.tail)
  | none, some increment =>
    match (firstChar? text.tail).bind Chomping.ofChar? with
    | some chomping => (⟨chomping, some increment⟩, text.tail.tail)
    | none => (⟨.clip, some increment⟩, text.tail)
  | none, none => (⟨.clip, none⟩, text)

/-- Empty lines: their line ends, the largest column that their spaces and those of the next line
reach, and the text behind them. Spaces are skipped up to a column, if one is given, and no tab may
stand in front of it. -/
def emptyLines? (limit : Option Nat) (deepest : Nat) :
    List Glyph → Option (List Char × Nat × List Glyph)
  | [] => some ([], deepest, [])
  | glyph :: rest =>
    let indents := limit.all (glyph.column < ·)
    if glyph.char = ' ' ∧ indents then emptyLines? limit (max deepest (glyph.column + 1)) rest
    else if glyph.char = '\t' ∧ indents then none
    else if isBreak glyph.char then
      (emptyLines? limit deepest rest).map fun (breaks, found) => (glyph.char :: breaks, found)
    else some ([], deepest, glyph :: rest)

/-- A line of a scalar in lines begins with a blank. -/
def startsBlank (text : List Glyph) : Bool := (firstChar? text).any isBlank

/-- What stands between two lines: the line end of the first, which is folded away between lines that
do not begin with a blank, and the empty lines behind it. -/
def lineJoin (folded : Bool) (lineEnd empties : List Char) : List Char :=
  if folded && lineEnd == ['\n'] then if empties.isEmpty then [' '] else empties
  else lineEnd ++ empties

/-- The content of a scalar in lines, and what ends it. -/
structure Lines where
  text : List Char
  /-- The end of the last line. -/
  lineEnd : List Char
  /-- The ends of the empty lines behind the last one. -/
  empties : List Char
  rest : List Glyph

/-- The lines that are indented up to a column, behind what the line before them left: its end, the
empty lines behind it, and whether it begins with a blank. -/
def linesIn? (folded : Bool) (column : Nat) :
    Nat → List Char → List Char → Bool → List Glyph → Option Lines
  | 0, _, _, _, _ => none
  | steps + 1, lineEnd, empties, blank, text =>
    if text.head?.any (·.column == column) then do
      let join := lineJoin (folded && !blank && !startsBlank text) lineEnd empties
      let line := chars (text.takeWhile (!isBreak ·.char))
      let rest := skipLine text
      let (nextEmpties, _, after) ← emptyLines? (some column) 0 rest.tail
      let more ←
        linesIn? folded column steps (firstChar? rest).toList nextEmpties (startsBlank text) after
      some { more with text := join ++ line ++ more.text }
    else some ⟨[], lineEnd, empties, text⟩

/-- The value of a scalar in lines behind its first sign, and the text behind it. The lines are
indented by the margin of the place or more, unless the header says a number, which cannot be zero. -/
def lines? (folded : Bool) (margin : Nat) (text : List Glyph) : Option (List Char × List Glyph) := do
  let (header, rest) := header text
  let rest ← lineEnd? rest
  if header.increment = some 0 then none
  else
    let given := header.increment.map (margin - 1 + ·)
    let (empties, deepest, rest) ← emptyLines? given 0 rest.tail
    let column := given.getD (max deepest (max margin 1))
    let lines ← linesIn? folded column (rest.length + 1) [] empties false rest
    let tail := match header.chomping with
      | .strip => []
      | .clip => lines.lineEnd
      | .keep => lines.lineEnd ++ lines.empties
    some (lines.text ++ tail, lines.rest)

end MatlabFront.Yaml
