import MatlabFront.CommandLine.Answer
import MatlabFront.CommandLine.Invocation
import MatlabFront.Event
import MatlabFront.Settings.Codec
import MatlabFront.Tree

/-!
# Libraries of a run

What a run leaves to others: reading the words of a command line, reading and writing settings, writing
trees in the formats that others read, and the layout of notices and reports. A run is the same whichever
way these are done, so they are given to it, and nothing is asked of them here.
-/

namespace MatlabFront.CommandLine

/-- What a run leaves to others. Whoever refuses something does so in words of their own. -/
structure Libraries where
  /-- Reads the words of a command line, with the variables of the environment beside them. Words that
  are no invocation are answered at once. -/
  arguments : (String → Option String) → List String → Except Answer Invocation
  /-- Read and write settings. -/
  settings : SettingsCodecs
  /-- Writes a tree as JSON with one part a line. -/
  indented : Program → Except String String
  /-- Writes a tree as JSON on one line. -/
  compact : Program → Except String String
  /-- Writes a tree as YAML. -/
  yaml : Program → Except String String
  /-- The lines for those notices that a limit lets through. -/
  notices : Severity → List Notice → String
  /-- The report of a failure, from its wording and the wording of what is behind it. -/
  report : String → Option String → String

end MatlabFront.CommandLine
