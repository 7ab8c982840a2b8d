import MatlabFront.CommandLine.Libraries
import MatlabFront.Datum.Inspect
import MatlabFront.Parser.Program
import MatlabFront.Settings.Search
import MatlabFront.Tree.Datum

/-!
# Runs of the program

What the program answers to a command line. Settings are loaded before anything else is done. Files are
read from those that are at hand, and at most one file is written, which a run leaves to the one who runs
it.

For each command, notices below the limit are left out, and notices stand on the standard error in
front of the reason of a failure.
-/

namespace MatlabFront.CommandLine

/-- A run ends with its answer, or asks for a file to be written and goes on with what came of it. -/
inductive Run where
  | done (answer : Answer)
  | write (path text : String) (next : Except FileFault Unit → Answer)

/-- How the program itself was built. -/
structure Build where
  /-- Assertions for debugging are part of it. -/
  assertions : Bool
  /-- The machine that it was built for. -/
  architecture : String
  system : String

/-- What surrounds a run: the environment, the files, the text of the standard input, and the program
itself. -/
structure Surroundings where
  environment : Environment
  files : Files
  input : Except FileFault String
  build : Build

/-- Why a run fails. -/
inductive RunFault where
  | settings (fault : SettingsFault)
  /-- The effective settings cannot be shown. -/
  | shown (words : String)
  | input (fault : FileFault)
  | source (path : String) (fault : FileFault)
  /-- A tree cannot be written in a format with this name. -/
  | tree (format words : String)
  deriving DecidableEq

namespace RunFault

/-- The wording of a fault. -/
def text : RunFault → String
  | settings fault => fault.text
  | shown _ => "Failed to serialize config"
  | input _ => "Failed to read standard input"
  | source path _ => "Failed to read " ++ path
  | tree format _ => "Failed to serialize tree to " ++ format

/-- The wording of the fault behind a fault. -/
def cause? : RunFault → Option String
  | settings fault => fault.cause?
  | shown words | tree _ words => some words
  | input fault | source _ fault => some fault.text

end RunFault

namespace Invocation

/-- The limit of the notices that are shown. -/
def limit (invocation : Invocation) (settings : Settings) : Severity :=
  if invocation.debug then .debug else invocation.level.getD settings.limit

end Invocation

/-- The notice of the program itself. -/
def notice (severity : Severity) (text : String) : Notice := ⟨severity, "transmat", text⟩

/-- The notice that a run begins. -/
def startNotice : Notice := notice .debug ("transmat v" ++ Answer.versionNumber ++ " starting")

/-- The settings that the flags of a parse leave. -/
def narrowed (settings : Settings) (format : Option OutputFormat) (strict compact : Bool) :
    Settings :=
  { settings with
    dialect := if strict then .strict else settings.dialect
    format := format.getD settings.format
    pretty := settings.pretty && !compact }

/-- The standard input is named by a dash, which slashes and dots that lead nowhere may follow. -/
def namesInput (source : String) : Bool :=
  match Path.parts source.toList with
  | ['-'] :: more => more.all fun part => part == [] || part == ['.']
  | _ => false

/-- The text of a source. -/
def sourceText (surroundings : Surroundings) (source : String) : Except RunFault String :=
  if namesInput source then surroundings.input.mapError .input
  else (surroundings.files.read source).mapError (.source source)

/-- The line of a token in a list of tokens. -/
def tokenLine (token : Token) : String :=
  toString token.pos.line ++ ":" ++ toString token.pos.offset ++ "\t" ++ token.kind.name ++ "\t"
    ++ Text.quoted token.text ++ "\n"

/-- The text that tells the version, with the build and the parts of the program if they are asked
for. -/
def versionText (build : Build) (detailed : Bool) : String :=
  "transmat v" ++ Answer.versionNumber ++ "\n"
    ++ (if detailed then
        "Profile: " ++ (if build.assertions then "debug" else "release") ++ "\n"
          ++ "Target: " ++ build.architecture ++ "-" ++ build.system ++ "\n"
          ++ "\nComponents:\n"
          ++ "  • transmat-lexer: MATLAB/Octave tokenizer\n"
          ++ "  • transmat-parser: syntax tree construction and desugaring\n"
      else "")

section Answers

variable (libraries : Libraries)

/-- The settings for an invocation. Overrides concern only settings that were searched for. -/
def Invocation.settings (invocation : Invocation) (files : Files) (environment : Environment) :
    Except SettingsFault Settings :=
  match invocation.settingsPath with
  | some path => Settings.ofFile libraries.settings files path
  | none => Settings.load libraries.settings files environment

/-- The answer of a run that fails behind some notices. -/
def failedAnswer (notices : String) (fault : RunFault) : Answer :=
  .failure notices (libraries.report fault.text fault.cause?)

/-- The text of a tree in a form of output. -/
def render (program : Program) (format : OutputFormat) (pretty : Bool) : Except RunFault String :=
  match format with
  | .json =>
    (if pretty then libraries.indented program else libraries.compact program).mapError (.tree "JSON")
  | .yaml => (libraries.yaml program).mapError (.tree "YAML")
  | .debug => .ok program.toDatum.inspectLines

/-- The answer of a parse under some settings, from a reading of the source. -/
def parseAnswer (settings : Settings) (limit : Severity) (source : String) (reading : Reading) :
    Answer :=
  let notices := libraries.notices limit <|
    startNotice :: notice .info ("Parsing " ++ source ++ " (" ++ settings.dialect.name ++ " mode)")
      :: reading.events.map Event.notice
  match reading.result with
  | none => .failure notices ""
  | some (.error failure) =>
    .failure notices (source ++ ":" ++ toString failure.pos.line ++ ": " ++ failure.text ++ "\n")
  | some (.ok program) =>
    match render libraries program settings.format settings.pretty with
    | .ok text => .success (text ++ "\n") notices
    | .error fault => failedAnswer libraries notices fault

/-- The answer that lists the tokens of a source. -/
def tokensAnswer (limit : Severity) (source text : String) : Answer :=
  let tokens := Token.ofText text
  let bad := tokens.countP (·.kind == .error)
  let warning :=
    if bad = 0 then []
    else [notice .warn (toString bad ++ " unrecognized token(s) in " ++ source)]
  .success (String.join (tokens.map tokenLine))
    (libraries.notices limit
      (startNotice :: (tokens.filterMap Token.event?).map Event.notice ++ warning))

/-- The answer once the default settings were written to a file, or not. -/
def savedAnswer (limit : Severity) (path : String) : Except FileFault Unit → Answer
  | .ok () =>
    let saved : Notice := ⟨.info, "transmat::config", "Configuration saved to: " ++ path⟩
    .success ("Configuration written to " ++ path ++ "\n")
      (libraries.notices limit [startNotice, saved])
  | .error fault =>
    failedAnswer libraries (libraries.notices limit [startNotice])
      (.settings (.unwritable path fault))

/-- The run of a command under some settings. -/
def Command.run (command : Command) (settings : Settings) (limit : Severity)
    (surroundings : Surroundings) : Run :=
  let started := libraries.notices limit [startNotice]
  match command with
  | .parse source format strict compact =>
    match sourceText surroundings source with
    | .error fault => .done (failedAnswer libraries started fault)
    | .ok text =>
      let settings := narrowed settings format strict compact
      .done (parseAnswer libraries settings limit source (Reading.ofText settings.dialect text))
  | .tokens source =>
    match sourceText surroundings source with
    | .error fault => .done (failedAnswer libraries started fault)
    | .ok text => .done (tokensAnswer libraries limit source text)
  | .showSettings =>
    match (libraries.settings .yaml).write settings with
    | .error words => .done (failedAnswer libraries started (.shown words))
    | .ok text => .done (.success text started)
  | .generateSettings none => .done (.success (Settings.sample libraries.settings) started)
  | .generateSettings (some path) =>
    match Settings.default.toText libraries.settings path with
    | .error fault => .done (failedAnswer libraries started (.settings fault))
    | .ok text => .write path text (savedAnswer libraries limit path)
  | .version detailed => .done (.success (versionText surroundings.build detailed) started)

/-- The run of an invocation. -/
def Invocation.run (invocation : Invocation) (surroundings : Surroundings) : Run :=
  match invocation.settings libraries surroundings.files surroundings.environment with
  | .error fault => .done (failedAnswer libraries "" (.settings fault))
  | .ok settings =>
    invocation.command.run libraries settings (invocation.limit settings) surroundings

/-- The run of the program on some words. -/
def Run.ofWords (words : List String) (surroundings : Surroundings) : Run :=
  match libraries.arguments surroundings.environment.lookup words with
  | .ok invocation => invocation.run libraries surroundings
  | .error answer => .done answer

/-- The source that a command reads. -/
def Command.source? : Command → Option String
  | .parse source _ _ _ | .tokens source => some source
  | _ => none

/-- The paths that a run may look at, beside the standard input. -/
def Run.paths (words : List String) (environment : Environment) : List String :=
  match libraries.arguments environment.lookup words with
  | .ok invocation =>
    (match invocation.settingsPath with
      | some path => [path]
      | none => Settings.candidates environment)
      ++ (invocation.command.source?.filter (!namesInput ·)).toList
  | .error _ => []

/-- A run reads the standard input. -/
def Run.readsInput (words : List String) (environment : Environment) : Bool :=
  match libraries.arguments environment.lookup words with
  | .ok invocation => invocation.command.source?.any namesInput
  | .error _ => false

end Answers

end MatlabFront.CommandLine
