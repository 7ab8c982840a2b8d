import MatlabFront.Json.OfText
import MatlabFront.Json.Text
import MatlabFront.Settings.Codec
import MatlabFront.Toml.OfText
import MatlabFront.Toml.Text
import MatlabFront.Yaml.OfText
import MatlabFront.Yaml.Text

/-!
# The built-in codecs of settings

A codec for each format, by the readers and writers of this library. They go through documents: a text
of any format is first read as a document, and the settings are then read from it.
-/

namespace MatlabFront

namespace SettingsFormat

/-- A value that holds nothing in a format, where the name of a case may be written with one. -/
def holdsNothing : SettingsFormat → Document → Bool
  | json, .null => true
  | toml, .table [] | toml, .list [] => true
  | _, _ => false

/-- The convention of a format. -/
def convention (format : SettingsFormat) : Settings.Convention :=
  ⟨format.holdsNothing, format == toml⟩

/-- The document that a text writes in a format. -/
def document? : SettingsFormat → String → Option Document
  | yaml, text => Yaml.ofText? text
  | json, text => (Json.Written.ofText? text).map Document.ofWritten
  | toml, text => Toml.ofText? text

/-- The settings that a text writes in a format. -/
def read? (format : SettingsFormat) (text : String) : Option Settings := do
  Settings.ofDocument? format.convention (← format.document? text)

/-- The text of settings in a format. -/
def write (format : SettingsFormat) (settings : Settings) : String :=
  match format with
  | yaml => (Yaml.text? settings.toDatum).getD ""
  | json => settings.toDatum.toJson.indented
  | toml => Toml.text settings.toDatum

end SettingsFormat

/-- The codecs of this library. Their readers say no more of a refusal than the format. -/
def SettingsCodecs.builtIn : SettingsCodecs := fun format =>
  { read := fun text =>
      match format.read? text with
      | some settings => .ok settings
      | none => .error ("not " ++ format.name)
    write := fun settings => .ok (format.write settings) }

end MatlabFront
