/-!
# Positions in a source text

A position names a place by its line, counted from one, and by the number of bytes in front of
it. Every token carries the position of its first character, and every tree node the position of
the token that names it best.
-/

namespace MatlabFront

/-- A place in a source text. -/
structure Position where
  /-- The line, counted from one. -/
  line : Nat
  /-- The number of bytes in front of the place. -/
  offset : Nat
  deriving DecidableEq

/-- The position reported for an input without tokens. -/
def Position.origin : Position := ⟨0, 0⟩

end MatlabFront
