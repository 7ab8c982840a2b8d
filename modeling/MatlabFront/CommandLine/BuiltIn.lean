import MatlabFront.CommandLine.Arguments
import MatlabFront.CommandLine.Libraries
import MatlabFront.Json.Text
import MatlabFront.Settings.BuiltIn
import MatlabFront.Settings.Search
import MatlabFront.Tree.Datum
import MatlabFront.Yaml.Text

/-!
# The built-in surroundings of a run

A run with the readers and writers of this project, where the directories are those that variables name.
-/

namespace MatlabFront.CommandLine

/-- A tree as YAML. A case right inside a case has no form there. -/
def yamlText (program : Program) : Except String String :=
  match Yaml.text? program.toDatum with
  | some text => .ok text
  | none => .error "serializing nested enums in YAML is not supported yet"

/-- The report of a failure, with the wording of what is behind it below. -/
def reportText (wording : String) (cause : Option String) : String :=
  "Error: " ++ wording ++ "\n" ++
    match cause with
    | some cause => "\nCaused by:\n    " ++ cause ++ "\n"
    | none => ""

/-- The readers and writers of this project. -/
def Libraries.builtIn : Libraries where
  arguments lookup words := (Invocation.ofWords lookup words).mapError .ofHalt
  settings := .builtIn
  indented program := .ok program.toDatum.toJson.indented
  compact program := .ok program.toDatum.toJson.compact
  yaml := yamlText
  notices := Notice.shown
  report := reportText

/-- The environment of some variables. One of them names the home directory. Another may name the
directory for settings of programs, by an absolute path; the usual one is in the home directory. -/
def environmentOf (lookup : String → Option String) (workingDirectory : Option String) :
    Environment :=
  let home := (lookup "HOME").filter (!·.isEmpty)
  let named := (lookup "XDG_CONFIG_HOME").filter (·.toList.head? = some '/')
  ⟨lookup, workingDirectory, home, named.or (home.map (Path.join · ".config"))⟩

end MatlabFront.CommandLine
