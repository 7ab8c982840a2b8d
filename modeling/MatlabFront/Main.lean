import MatlabFront.CommandLine.BuiltIn
import MatlabFront.CommandLine.Run

/-!
# The program

Looks at the surroundings of a run, hands them to the run and does what it answers.
-/

namespace MatlabFront.CommandLine

/-- The variables that a run looks at. -/
def variableNames : List String :=
  ["HOME", "XDG_CONFIG_HOME", "TRANSMAT_CONFIG", "TRANSMAT_COMPAT", "TRANSMAT_FORMAT",
    "TRANSMAT_PRETTY", "TRANSMAT_DEBUG", "TRANSMAT_LOG_LEVEL"]

/-- The fault that an error of the system is. -/
def faultOf : IO.Error → FileFault
  | .noFileOrDirectory .. => .notFound
  | .permissionDenied .. => .denied
  | .inappropriateType .. => .isADirectory
  | .userError _ => .notText
  | error => .other (toString error)

/-- The working directory of this process, if there is one. -/
def workingDirectoryOfProcess : IO (Option String) := do
  try return some (toString (← IO.currentDir))
  catch _ => return none

/-- The environment of this process. -/
def environmentOfProcess : IO Environment := do
  let mut values : List (String × String) := []
  for name in variableNames do
    if let some value ← IO.getEnv name then values := (name, value) :: values
  let found := values
  return environmentOf (fun name => found.lookup name) (← workingDirectoryOfProcess)

/-- The program that this is. -/
def build : Build := ⟨false, "x86_64", "linux"⟩

/-- What a file holds. -/
def readFile (path : String) : IO (Except FileFault String) := do
  try return .ok (← IO.FS.readFile path)
  catch error => return .error (faultOf error)

/-- Something is at a path that can be followed to its end. -/
def isPresent (path : String) : IO Bool := do
  try
    discard (IO.FS.realPath path)
    return true
  catch _ => return false

/-- Some files as they are now. -/
def filesOf (paths : List String) : IO Files := do
  let found ← paths.mapM fun path => do return (path, ← isPresent path, ← readFile path)
  return ⟨fun path => (found.lookup path).any (·.1),
    fun path => ((found.lookup path).map (·.2)).getD (.error .notFound)⟩

/-- All of the standard input. -/
partial def readInput (input : IO.FS.Stream) (text : String) : IO String := do
  let line ← input.getLine
  if line.isEmpty then return text else readInput input (text ++ line)

/-- All of the standard input, or why it cannot be read. -/
def inputText : IO (Except FileFault String) := do
  try return .ok (← readInput (← IO.getStdin) "")
  catch error => return .error (faultOf error)

/-- Does what a run asks for, and returns its answer. -/
def Run.answer : Run → IO Answer
  | .done answer => return answer
  | .write path text next => do
    try
      IO.FS.writeFile path text
      return next (.ok ())
    catch error => return next (.error (faultOf error))

end MatlabFront.CommandLine

open MatlabFront.CommandLine in
/-- Runs the program on the words of its command line. -/
def main (words : List String) : IO UInt32 := do
  let libraries := Libraries.builtIn
  let environment ← environmentOfProcess
  let files ← filesOf (Run.paths libraries words environment)
  let input ← if Run.readsInput libraries words environment then inputText else pure (.ok "")
  let answer ← (Run.ofWords libraries words ⟨environment, files, input, build⟩).answer
  (← IO.getStderr).putStr answer.errors
  (← IO.getStdout).putStr answer.output
  return answer.code.toUInt32
