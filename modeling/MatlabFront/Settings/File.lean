import MatlabFront.Files
import MatlabFront.Settings.Codec

/-!
# Settings files

The extension of a settings file says the format of its text. The reader and the writer go by rules of
their own. A file with another extension, or with none, is read as YAML or, failing that, as JSON; it
is written as YAML.
-/

namespace MatlabFront

namespace SettingsFormat

/-- The format in which a file with an extension is read. Extensions are spelled in lower case, and
with any other the text has to show its format. -/
def ofExtension? : Option String → Option SettingsFormat
  | some "yaml" | some "yml" => some yaml
  | some "json" => some json
  | some "toml" => some toml
  | _ => none

/-- The format in which a file with an extension is written. -/
def forExtension : Option String → SettingsFormat
  | some "json" => json
  | some "toml" => toml
  | _ => yaml

end SettingsFormat

/-- Why settings cannot be loaded or saved. -/
inductive SettingsFault where
  | unreadable (path : String) (fault : FileFault)
  /-- The reader of the format refuses the text, in these words. -/
  | malformed (format : SettingsFormat) (path words : String)
  | unrecognized (path : String)
  /-- The writer of the format refuses the settings, in these words. -/
  | unwritten (format : SettingsFormat) (words : String)
  | unwritable (path : String) (fault : FileFault)
  deriving DecidableEq

namespace SettingsFault

/-- The wording of a fault. -/
def text : SettingsFault → String
  | unreadable path _ => "Failed to read config file: " ++ path
  | malformed format path _ => "Failed to parse " ++ format.name ++ " config: " ++ path
  | unrecognized path => "Could not parse config file " ++ path ++ " (tried YAML, JSON)"
  | unwritten format _ => "Failed to serialize config to " ++ format.name
  | unwritable path _ => "Failed to write config file: " ++ path

/-- The wording of the fault behind a fault. -/
def cause? : SettingsFault → Option String
  | unreadable _ fault | unwritable _ fault => some fault.text
  | malformed _ _ words | unwritten _ words => some words
  | unrecognized _ => none

end SettingsFault

namespace Settings

variable (codecs : SettingsCodecs)

/-- The settings that a text writes, in the format of the path of its file. -/
def ofText (path text : String) : Except SettingsFault Settings :=
  match SettingsFormat.ofExtension? (Path.extension? path) with
  | some format => ((codecs format).read text).mapError (.malformed format path)
  | none =>
    match (codecs .yaml).read text with
    | .ok settings => .ok settings
    | .error _ =>
      match (codecs .json).read text with
      | .ok settings => .ok settings
      | .error _ => .error (.unrecognized path)

/-- The settings of a file. -/
def ofFile (files : Files) (path : String) : Except SettingsFault Settings :=
  match files.read path with
  | .error fault => .error (.unreadable path fault)
  | .ok text => ofText codecs path text

/-- The text under which settings are saved in a file. -/
def toText (settings : Settings) (path : String) : Except SettingsFault String :=
  let format := SettingsFormat.forExtension (Path.extension? path)
  ((codecs format).write settings).mapError (.unwritten format)

/-- Saves settings in a file, by something that writes a text at a path. -/
def save {α : Type} (settings : Settings) (path : String)
    (write : String → String → Except FileFault α) : Except SettingsFault α :=
  match settings.toText codecs path with
  | .error fault => .error fault
  | .ok text => (write path text).mapError (.unwritable path)

/-- The text of a sample file, which says the defaults. -/
def sample : String :=
  match (codecs .yaml).write default with
  | .ok text => text
  | .error _ => "# Failed to generate config"

end Settings

end MatlabFront
