import MatlabFront.Settings

/-!
# Codecs of settings

Settings are kept in YAML, JSON or TOML. How a text of such a format is read and written is not said
here: a codec is any reader together with any writer, and each of the two may refuse what it is given
and say why. A codec carries no law. That it reads back what it has written is a predicate of it.
-/

namespace MatlabFront

/-- The formats of settings files. -/
inductive SettingsFormat where
  | yaml
  | json
  | toml
  deriving DecidableEq

/-- The name of a format. -/
def SettingsFormat.name : SettingsFormat → String
  | yaml => "YAML"
  | json => "JSON"
  | toml => "TOML"

/-- A reader and a writer of settings. A refusal is in words of their own. -/
structure SettingsCodec where
  /-- The settings that a text says. -/
  read : String → Except String Settings
  /-- The text of settings. -/
  write : Settings → Except String String

/-- Settings that have been written are read as what they were. -/
def SettingsCodec.ReadsBack (codec : SettingsCodec) : Prop :=
  ∀ settings text, codec.write settings = .ok text → codec.read text = .ok settings

/-- A codec for each format. -/
abbrev SettingsCodecs := SettingsFormat → SettingsCodec

end MatlabFront
