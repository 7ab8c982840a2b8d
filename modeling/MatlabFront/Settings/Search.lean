import MatlabFront.Settings.File

/-!
# Finding settings

Settings come from the first file that is there: the one that a variable names, one in the working
directory, one in the home directory, or one in the directory for settings of programs. A file that
is there and cannot be read is a fault. Variables of the environment then override single settings.
-/

namespace MatlabFront

/-- What surrounds a run of the program. The system knows the directories, and for each of them it may
know none. -/
structure Environment where
  /-- The variables that are set. -/
  lookup : String → Option String
  /-- The path of the working directory. -/
  workingDirectory : Option String
  /-- The path of the home directory. -/
  homeDirectory : Option String
  /-- The path of the directory for settings of programs. -/
  settingsDirectory : Option String

namespace Settings

/-- The names of settings files in the working directory, the first to be tried first. -/
def workingNames : List String :=
  [".transmat.yaml", ".transmat.yml", ".transmat.json", ".transmat.toml", "transmat.config.yaml",
    "transmat.config.yml", "transmat.config.json", "transmat.config.toml"]

/-- The names of settings files in the home directory. -/
def homeNames : List String :=
  [".transmat.yaml", ".transmat.yml", ".transmat.json", ".transmat.toml"]

/-- The names of settings files in the directory for settings of programs. -/
def sharedNames : List String :=
  ["transmat/config.yaml", "transmat/config.yml", "transmat/config.json", "transmat/config.toml"]

/-- The paths of some names inside a directory, if there is one. -/
def inside (names : List String) (directory : Option String) : List String :=
  directory.elim [] fun directory => names.map (Path.join directory)

/-- The paths at which a settings file is looked for, the first to be tried first. -/
def candidates (environment : Environment) : List String :=
  (environment.lookup "TRANSMAT_CONFIG").toList
    ++ inside workingNames environment.workingDirectory
    ++ inside homeNames environment.homeDirectory
    ++ inside sharedNames environment.settingsDirectory

/-- The settings of the first candidate that is there, or the defaults. -/
def ofCandidates (codecs : SettingsCodecs) (files : Files) (paths : List String) :
    Except SettingsFault Settings :=
  match paths.find? files.present with
  | some path => ofFile codecs files path
  | none => .ok default

/-- A text with its ASCII letters in lower case. No other letter has a letter of the words for
settings as its lower case. -/
def lower (text : String) : String := String.ofList (text.toList.map Char.toLower)

/-- The truth value that a variable says. -/
def switch? (text : String) : Option Bool :=
  let word := lower text
  if ["1", "true", "yes", "on", "enable", "enabled"].contains word then some true
  else if ["0", "false", "no", "off", "disable", "disabled", ""].contains word then some false
  else none

/-- The value that a variable gives to a setting: what its text says, or the setting as it was. -/
def overridden {α : Type} (text : Option String) (read : String → Option α) (value : α) : α :=
  ((text.bind read).getD value)

/-- Overrides single settings by variables. A text that says no value leaves its setting as it was,
except that the debug switch is then off. -/
def override (lookup : String → Option String) (settings : Settings) : Settings where
  dialect := overridden (lookup "TRANSMAT_COMPAT") (Dialect.ofKey? <| lower ·) settings.dialect
  format := overridden (lookup "TRANSMAT_FORMAT") (OutputFormat.ofKey? <| lower ·) settings.format
  pretty := overridden (lookup "TRANSMAT_PRETTY") switch? settings.pretty
  level := overridden (lookup "TRANSMAT_LOG_LEVEL") (Severity.ofKey? <| lower ·) settings.level
  debug :=
    match lookup "TRANSMAT_DEBUG" with
    | some text => (switch? text).getD false
    | none => settings.debug

/-- The settings for a run: those of the first file that is there, with the overrides. -/
def load (codecs : SettingsCodecs) (files : Files) (environment : Environment) :
    Except SettingsFault Settings :=
  match ofCandidates codecs files (candidates environment) with
  | .ok settings => .ok (settings.override environment.lookup)
  | .error fault => .error fault

end Settings

end MatlabFront
