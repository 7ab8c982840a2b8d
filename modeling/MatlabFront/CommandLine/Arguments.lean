import MatlabFront.CommandLine.Answer
import MatlabFront.CommandLine.Invocation
import MatlabFront.CommandLine.Words

/-!
# The built-in reader of command lines

Reads the words of a command line as an invocation. The options that concern every command stand in
front of the name of the command. Two of them can also be given by variables of the environment, which
are looked at only when the option is absent. Words that are no invocation have an answer at once.
-/

namespace MatlabFront.CommandLine

namespace Answer

/-- How the program is used. -/
def usage : String :=
  "Usage: transmat [OPTIONS] <COMMAND>\n\nCommands:\n"
    ++ "  parse FILE [--format json|yaml|debug] [--strict] [--compact]\n"
    ++ "  tokens FILE\n"
    ++ "  config show\n"
    ++ "  config generate [-o PATH]\n"
    ++ "  version [--detailed]\n\nOptions:\n"
    ++ "  -d, --debug\n"
    ++ "  --log-level error|warn|info|debug|trace\n"
    ++ "  --config PATH\n"

/-- The answer to words that are no invocation. -/
def ofHalt : Halt → Answer
  | .misuse => ⟨2, "", usage⟩
  | .help => success usage ""
  | .version title => success (title ++ " " ++ versionNumber ++ "\n") ""

end Answer

/-- A path is not empty. -/
def acceptsPath (path : String) : Bool := !path.isEmpty

/-- What the program takes. -/
def topForm : CommandForm where
  title := "transmat"
  options := [⟨"debug", some 'd', none⟩,
    ⟨"log-level", none, some fun word => (Severity.ofKey? word).isSome⟩,
    ⟨"config", none, some acceptsPath⟩]
  accepts := none
  commands := ["parse", "tokens", "config", "version", "help"]

/-- What the command that parses takes. -/
def parseForm : CommandForm where
  title := "transmat-parse"
  options := [⟨"format", none, some fun word => (OutputFormat.ofKey? word).isSome⟩,
    ⟨"strict", none, none⟩, ⟨"compact", none, none⟩]
  accepts := some acceptsPath
  commands := []

/-- What the command that lists tokens takes. -/
def tokensForm : CommandForm := ⟨"transmat-tokens", [], some acceptsPath, []⟩

/-- What the command for settings takes. -/
def settingsForm : CommandForm := ⟨"transmat-config", [], none, ["show", "generate", "help"]⟩

/-- What the command that shows settings takes. -/
def showForm : CommandForm := ⟨"transmat-config-show", [], none, []⟩

/-- What the command that writes settings takes. -/
def generateForm : CommandForm :=
  ⟨"transmat-config-generate", [⟨"output", some 'o', some acceptsPath⟩], none, []⟩

/-- What the command that tells the version takes. -/
def versionForm : CommandForm := ⟨"transmat-version", [⟨"detailed", none, none⟩], none, []⟩

namespace Command

/-- All that the words of a command without commands of its own give. -/
def complete (form : CommandForm) (words : List String) : Except Halt Level := do
  (← form.read .empty words).settled

/-- The source that a command names. -/
def source (level : Level) : Except Halt String :=
  match level.operand? with
  | some path => .ok path
  | none => .error .misuse

/-- Help on a command, named by the way to it. -/
def help {α : Type} (ways : List (List String)) (words : List String) : Except Halt α :=
  if ways.contains words then .error .help else .error .misuse

/-- The ways to the commands for settings. -/
def settingsWays : List (List String) := [[], ["show"], ["generate"], ["help"]]

/-- The ways to all commands. -/
def allWays : List (List String) :=
  [[], ["parse"], ["tokens"], ["version"], ["help"]] ++ settingsWays.map ("config" :: ·)

/-- A command for settings, from the words behind their name. -/
def ofSettingsWords (words : List String) : Except Halt Command := do
  let level ← settingsForm.read .empty words
  match level.entered with
  | some ("show", words) => do
    discard (complete showForm words)
    return .showSettings
  | some ("generate", words) => do
    return .generateSettings ((← complete generateForm words).value? "output")
  | some ("help", words) => help settingsWays words
  | _ => .error .misuse

/-- The command of a name, from the words behind it. -/
def ofWords (name : String) (words : List String) : Except Halt Command :=
  match name with
  | "parse" => do
    let level ← complete parseForm words
    return .parse (← source level) ((level.value? "format").bind OutputFormat.ofKey?)
      (level.hasFlag "strict") (level.hasFlag "compact")
  | "tokens" => do return .tokens (← source (← complete tokensForm words))
  | "config" => ofSettingsWords words
  | "version" => do return .version ((← complete versionForm words).hasFlag "detailed")
  | "help" => help allWays words
  | _ => .error .misuse

end Command

namespace Invocation

/-- Whether debug notices are asked for, by the option or by its variable. -/
def debugOf (lookup : String → Option String) (level : Level) : Except Halt Bool :=
  if level.hasFlag "debug" then .ok true
  else match lookup "TRANSMAT_DEBUG" with
    | none => .ok false
    | some word =>
      if word = "true" then .ok true
      else if word = "false" then .ok false
      else .error .misuse

/-- The settings file that the option or its variable names. -/
def settingsPathOf (lookup : String → Option String) (level : Level) :
    Except Halt (Option String) :=
  match level.value? "config" with
  | some path => .ok (some path)
  | none =>
    match lookup "TRANSMAT_CONFIG" with
    | none => .ok none
    | some path => if acceptsPath path then .ok (some path) else .error .misuse

/-- The invocation that some words are. -/
def ofWords (lookup : String → Option String) (words : List String) :
    Except Halt Invocation := do
  let level ← topForm.read .empty words
  match level.entered with
  | none => .error .misuse
  | some (name, words) =>
    let command ← Command.ofWords name words
    let level ← level.settled
    return ⟨← debugOf lookup level, (level.value? "log-level").bind Severity.ofKey?,
      ← settingsPathOf lookup level, command⟩

end Invocation

end MatlabFront.CommandLine
