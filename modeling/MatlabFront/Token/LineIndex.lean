/-!
# Lines of a text

An index keeps at which byte each line of a text starts, so that the line of any place in the text
is found by halving and not by reading the text again. A place that starts a line is found in the
index. Any other place stands behind the starts of its own line and of all lines above, and in front
of the start of the next line.
-/

namespace MatlabFront

/-- The answer to a search for a value among increasing entries. -/
inductive Lookup where
  /-- The value is the entry at an index. -/
  | found (index : Nat)
  /-- The value is no entry; its place is in front of the entry at an index. -/
  | absent (index : Nat)
  deriving DecidableEq

namespace Lookup

/-- Halves a part of some entries until one entry is left. The back of the part begins with its
middle entry and is kept when that entry does not exceed the value. Otherwise as many entries are
kept from the front. -/
def narrow (entries : Array Nat) (value first size : Nat) (filled : 0 < size)
    (inside : first + size ≤ entries.size) : Fin entries.size :=
  if single : size = 1 then ⟨first, by omega⟩
  else if value < entries[first + size / 2] then
    narrow entries value first (size - size / 2) (by omega) (by omega)
  else narrow entries value (first + size / 2) (size - size / 2) (by omega) (by omega)
termination_by size

/-- The answer to a search for which one entry is left. -/
def ofLast (entries : Array Nat) (value : Nat) (last : Fin entries.size) : Lookup :=
  if entries[last] = value then .found last
  else if entries[last] < value then .absent (last + 1)
  else .absent last

/-- Searches increasing entries for a value by halving. -/
def ofEntries (entries : Array Nat) (value : Nat) : Lookup :=
  if filled : 0 < entries.size then
    ofLast entries value (narrow entries value 0 entries.size filled (by omega))
  else .absent 0

/-- The number of entries that do not exceed the value. -/
def rank : Lookup → Nat
  | found index => index + 1
  | absent index => index

end Lookup

/-- Where the newlines among some characters stand, when the first character stands at an offset. -/
def newlines (offset : Nat) : List Char → List Nat
  | [] => []
  | c :: cs =>
    if c = '\n' then offset :: newlines (offset + c.utf8Size) cs
    else newlines (offset + c.utf8Size) cs

variable {offset : Nat} {cs : List Char}

/-- No newline stands in front of the first character. -/
theorem le_of_mem_newlines {place : Nat} (inside : place ∈ newlines offset cs) :
    offset ≤ place := by
  induction cs generalizing offset with
  | nil => cases inside
  | cons c cs ih =>
    rw [newlines] at inside
    split at inside
    case isTrue =>
      obtain rfl | later := List.mem_cons.mp inside
      · exact Nat.le_refl place
      · exact Nat.le_of_add_right_le (ih later)
    case isFalse => exact Nat.le_of_add_right_le (ih inside)

/-- Newlines stand one behind the other. -/
theorem newlines_pairwise : (newlines offset cs).Pairwise (· < ·) := by
  induction cs generalizing offset with
  | nil => exact .nil
  | cons c cs ih =>
    rw [newlines]
    split
    case isTrue =>
      refine .cons (fun place later => ?_) ih
      have behind : offset + c.utf8Size ≤ place := le_of_mem_newlines later
      have positive : 0 < c.utf8Size := c.utf8Size_pos
      omega
    case isFalse => exact ih

/-- Where the lines of a text start: the first one at the beginning, and each other one directly
behind a newline. -/
def lineStarts (text : String) : Array Nat :=
  (0 :: (newlines 0 text.toList).map (· + 1)).toArray

/-- Lines start one behind the other. -/
theorem lineStarts_pairwise (text : String) : (lineStarts text).toList.Pairwise (· < ·) := by
  refine .cons (fun start later => ?_) (newlines_pairwise.map _ fun _ _ => Nat.succ_lt_succ)
  obtain ⟨place, -, rfl⟩ := List.mem_map.mp later
  exact Nat.succ_pos place

/-- The places at which lines start. -/
structure LineIndex where
  /-- The starts of the lines, in bytes. -/
  starts : Array Nat
  /-- The first line starts at the beginning. -/
  first : starts[0]? = some 0
  /-- Every line starts behind the start of the line above. -/
  increasing : starts.toList.Pairwise (· < ·)

namespace LineIndex

/-- The index of a text. -/
def ofText (text : String) : LineIndex := ⟨lineStarts text, rfl, lineStarts_pairwise text⟩

/-- The line of a place, counted from one: as many lines start at or in front of the place. -/
def lineOf (index : LineIndex) (offset : Nat) : Nat :=
  (Lookup.ofEntries index.starts offset).rank

end LineIndex

end MatlabFront
