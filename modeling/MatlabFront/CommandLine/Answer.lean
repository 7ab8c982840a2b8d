/-!
# Answers

What a run of the program answers: an exit code, the text for the standard output and the text for the
standard error.
-/

namespace MatlabFront.CommandLine

/-- What a run answers. -/
structure Answer where
  code : Nat
  output : String
  errors : String
  deriving DecidableEq

namespace Answer

/-- The answer of a run that succeeds. -/
def success (output errors : String) : Answer := ⟨0, output, errors⟩

/-- The answer of a run that fails behind some notices. -/
def failure (notices report : String) : Answer := ⟨1, "", notices ++ report⟩

/-- The number of the version. -/
def versionNumber : String := "0.1.0"

end Answer

end MatlabFront.CommandLine
