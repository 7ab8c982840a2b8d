import MatlabFront.CommandLine.BuiltIn
import MatlabFront.CommandLine.Run
import MatlabFront.Proofs.Settings.Format
import Mathlib.Control.Monad.Basic

/-!
# The priority of settings

A parse goes by a dialect, by a form of output and by whether JSON is indented. Flags, variables of the
environment and a settings file may each say these, and they are meant to count in this order. Variables
are looked at only when the settings file is searched for, however. A file that is named, by the option
or by its variable, counts right behind the flags.
-/

namespace MatlabFront.CommandLine

/-- The settings that a parse goes by. -/
structure Profile where
  dialect : Dialect
  format : OutputFormat
  pretty : Bool
  deriving DecidableEq

/-- The settings of a parse among all settings. -/
def Profile.ofSettings (settings : Settings) : Profile :=
  ⟨settings.dialect, settings.format, settings.pretty⟩

/-- What one place says of the settings of a parse. Each of them may be left open. -/
structure Layer where
  dialect : Option Dialect
  format : Option OutputFormat
  pretty : Option Bool

namespace Layer

/-- The flags of a parse. -/
def ofFlags (format : Option OutputFormat) (strict compact : Bool) : Layer :=
  ⟨if strict then some .strict else none, format, if compact then some false else none⟩

/-- The variables of the environment. A text that is no value says nothing. -/
def ofVariables (lookup : String → Option String) : Layer :=
  ⟨(lookup "TRANSMAT_COMPAT").bind (Dialect.ofKey? <| Settings.lower ·),
    (lookup "TRANSMAT_FORMAT").bind (OutputFormat.ofKey? <| Settings.lower ·),
    (lookup "TRANSMAT_PRETTY").bind Settings.switch?⟩

/-- What a layer says, and below it what it leaves open. -/
def onto (layer : Layer) (profile : Profile) : Profile :=
  ⟨layer.dialect.getD profile.dialect, layer.format.getD profile.format,
    layer.pretty.getD profile.pretty⟩

/-- A layer does not go against a profile where a further layer leaves settings open. -/
structure Agrees (layer above : Layer) (profile : Profile) : Prop where
  dialect : above.dialect = none → ∀ dialect ∈ layer.dialect, dialect = profile.dialect
  format : above.format = none → ∀ format ∈ layer.format, format = profile.format
  pretty : above.pretty = none → ∀ pretty ∈ layer.pretty, pretty = profile.pretty

/-- The flags of a parse count before all settings. -/
theorem ofSettings_narrowed (settings : Settings) (format : Option OutputFormat)
    (strict compact : Bool) :
    Profile.ofSettings (narrowed settings format strict compact) =
      (ofFlags format strict compact).onto (.ofSettings settings) := by
  cases strict <;> cases compact <;> simp [Profile.ofSettings, narrowed, ofFlags, onto]

/-- Settings that are overridden are those that variables say, and where they say none those before. -/
theorem ofSettings_override (settings : Settings) (lookup : String → Option String) :
    Profile.ofSettings (settings.override lookup) =
      (ofVariables lookup).onto (.ofSettings settings) := rfl

/-- A setting that is left open above is the same with and without what a layer between says, when the
layer says nothing else. -/
theorem getD_getD_iff {α : Type} (above between : Option α) (value : α) :
    above.getD value = above.getD (between.getD value) ↔
      (above = none → ∀ said ∈ between, said = value) := by
  cases above <;> cases between <;> simp [eq_comm]

/-- What a layer says between others is of no account exactly when it agrees with what is below. -/
theorem onto_eq_iff (above layer : Layer) (profile : Profile) :
    above.onto profile = above.onto (layer.onto profile) ↔ layer.Agrees above profile := by
  simp only [onto, Profile.mk.injEq, getD_getD_iff]
  exact ⟨fun ⟨dialect, format, pretty⟩ => ⟨dialect, format, pretty⟩,
    fun agrees => ⟨agrees.dialect, agrees.format, agrees.pretty⟩⟩

end Layer

/-- A settings file that a variable names is named by every invocation, as if an option named it. -/
def Libraries.NamesFile (libraries : Libraries) : Prop :=
  ∀ lookup words invocation, libraries.arguments lookup words = .ok invocation →
    lookup "TRANSMAT_CONFIG" ≠ none → invocation.settingsPath ≠ none

namespace Invocation

variable (invocation : Invocation) (libraries : Libraries)

/-- What the settings file of an invocation says: the one that is named, or else the first of the usual
ones that is there. Without a file these are the defaults. -/
def fileSettings (files : Files) (environment : Environment) : Except SettingsFault Settings :=
  match invocation.settingsPath with
  | some path => Settings.ofFile libraries.settings files path
  | none => Settings.ofCandidates libraries.settings files (Settings.candidates environment)

/-- The settings for an invocation are those of its file, overridden by variables when the file was
searched for. -/
theorem settings_eq (files : Files) (environment : Environment) :
    invocation.settings libraries files environment =
      (invocation.fileSettings libraries files environment).map fun settings =>
        if invocation.settingsPath = none then settings.override environment.lookup else settings := by
  cases named : invocation.settingsPath with
  | some path =>
    simp only [settings, fileSettings, named, reduceCtorEq, if_false]
    cases Settings.ofFile libraries.settings files path <;> rfl
  | none =>
    simp only [settings, fileSettings, named, Settings.load]
    cases Settings.ofCandidates libraries.settings files (Settings.candidates environment) <;> rfl

end Invocation

/-- What a parse goes by. The flags come first, then the variables of the environment if the settings
file was searched for, and then the file, with defaults where it says nothing. So the flags, the variables
and the file count in this order exactly when the file was searched for or no variable says something
else than the file where the flags leave it open. A file that a variable names was not searched for. -/
theorem Run.ofWords_parse {libraries : Libraries} {words : List String} {surroundings : Surroundings}
    {invocation : Invocation} {file : Settings} {source text : String} {format : Option OutputFormat}
    {strict compact : Bool} (namesFile : libraries.NamesFile)
    (said : libraries.arguments surroundings.environment.lookup words = .ok invocation)
    (parse : invocation.command = .parse source format strict compact)
    (loaded : invocation.fileSettings libraries surroundings.files surroundings.environment = .ok file)
    (read : sourceText surroundings source = .ok text) :
    let flags := Layer.ofFlags format strict compact
    let overrides := Layer.ofVariables surroundings.environment.lookup
    ∃ settings, Run.ofWords libraries words surroundings =
        .done (parseAnswer libraries settings (invocation.limit settings) source
          (Reading.ofText settings.dialect text)) ∧
      Profile.ofSettings settings = flags.onto (if invocation.settingsPath = none
        then overrides.onto (.ofSettings file) else .ofSettings file) ∧
      (Profile.ofSettings settings = flags.onto (overrides.onto (.ofSettings file)) ↔
        invocation.settingsPath = none ∨ overrides.Agrees flags (.ofSettings file)) ∧
      (surroundings.environment.lookup "TRANSMAT_CONFIG" ≠ none →
        Profile.ofSettings settings = flags.onto (.ofSettings file)) := by
  intro flags overrides
  have settled := invocation.settings_eq libraries surroundings.files surroundings.environment
  rw [loaded, Except.map] at settled
  generalize found : (if invocation.settingsPath = none
    then file.override surroundings.environment.lookup else file) = settings at settled
  have profile : Profile.ofSettings (narrowed settings format strict compact) =
      flags.onto (if invocation.settingsPath = none
        then overrides.onto (.ofSettings file) else .ofSettings file) := by
    rw [Layer.ofSettings_narrowed, ← found]
    split
    · rw [Layer.ofSettings_override]
    · rfl
  refine ⟨narrowed settings format strict compact, ?_, profile, ?_, fun set => ?_⟩
  · rw [Run.ofWords, said]
    simp only [Invocation.run, settled, Command.run, parse, read]
    rfl
  · rw [profile, ← Layer.onto_eq_iff]
    by_cases searched : invocation.settingsPath = none <;> simp [searched]
  · rw [profile, if_neg (namesFile _ _ _ said set)]

section BuiltIn

variable {lookup : String → Option String}

/-- A reading that succeeds succeeds in both of its parts. -/
theorem ok_of_bind {α β : Type} {first : Except Halt α} {next : α → Except Halt β} {value : β}
    (whole : first >>= next = .ok value) : ∃ part, first = .ok part ∧ next part = .ok value := by
  cases first with
  | error halt => cases whole
  | ok part => exact ⟨part, rfl, whole⟩

/-- Where a variable names a settings file, the option for it is taken as given. -/
theorem Invocation.settingsPathOf_ne_none {level : Level} (set : lookup "TRANSMAT_CONFIG" ≠ none) :
    settingsPathOf lookup level ≠ .ok none := by
  obtain ⟨path, set⟩ := Option.ne_none_iff_exists'.mp set
  rw [settingsPathOf, set]
  cases level.value? "config" with
  | some path => simp
  | none => dsimp only; split <;> simp

/-- The built-in reader of command lines takes a settings file from its variable. -/
theorem Libraries.namesFile_builtIn : Libraries.builtIn.NamesFile := by
  intro lookup words invocation said set
  replace said : Invocation.ofWords lookup words = .ok invocation := mapError_eq_ok_iff.mp said
  rw [Invocation.ofWords] at said
  obtain ⟨level, -, said⟩ := ok_of_bind said
  cases entered : level.entered with
  | none => simp [entered] at said
  | some command =>
    simp only [entered] at said
    obtain ⟨command, -, said⟩ := ok_of_bind said
    obtain ⟨level, -, said⟩ := ok_of_bind said
    obtain ⟨debug, -, said⟩ := ok_of_bind said
    obtain ⟨named, read, said⟩ := ok_of_bind said
    rintro absent
    cases said
    exact Invocation.settingsPathOf_ne_none set (read.trans (congrArg _ absent))

end BuiltIn

/-- Surroundings with some variables, a working directory and one file, and nothing on the standard
input. -/
def Surroundings.ofFile (bindings : List (String × String)) (path text : String) : Surroundings where
  environment := ⟨fun name => List.lookup name bindings, some "work", none, none⟩
  files := ⟨fun other => other = path, fun other => if other = path then .ok text else .error .notFound⟩
  input := .ok ""
  build := ⟨false, "x86_64", "linux"⟩

/-- The file that is found says the form of output and that JSON is indented. A flag says another form,
and a variable that it is not indented; the dialect is said by a variable alone. -/
theorem Run.ofWords_parse_found :
    ∃ settings, Run.ofWords .builtIn ["parse", "-", "--format", "debug"] (Surroundings.ofFile
        [("TRANSMAT_COMPAT", "Strict"), ("TRANSMAT_PRETTY", "off"), ("TRANSMAT_FORMAT", "json")]
        "work/.transmat.json" "\x7b\"output\": \x7b\"format\": \"yaml\"\x7d\x7d") =
        .done (parseAnswer .builtIn settings settings.limit "-"
          (Reading.ofText settings.dialect "")) ∧
      Profile.ofSettings settings = ⟨.strict, .debug, false⟩ := by
  let surroundings := Surroundings.ofFile
    [("TRANSMAT_COMPAT", "Strict"), ("TRANSMAT_PRETTY", "off"), ("TRANSMAT_FORMAT", "json")]
    "work/.transmat.json" "\x7b\"output\": \x7b\"format\": \"yaml\"\x7d\x7d"
  let invocation : Invocation := ⟨false, none, none, .parse "-" (some .debug) false false⟩
  have said : Libraries.builtIn.arguments surroundings.environment.lookup
      ["parse", "-", "--format", "debug"] = .ok invocation := rfl
  have loaded : invocation.fileSettings .builtIn surroundings.files surroundings.environment =
      .ok ⟨.matlab, .yaml, true, .warn, false⟩ := by decide +kernel
  have read : sourceText surroundings "-" = .ok "" := rfl
  obtain ⟨settings, runs, profile, -⟩ :=
    @Run.ofWords_parse _ _ surroundings invocation _ _ _ _ _ _ Libraries.namesFile_builtIn said rfl
      loaded read
  have overrides : Layer.ofVariables surroundings.environment.lookup =
      ⟨some .strict, some .json, some false⟩ := rfl
  rw [overrides] at profile
  exact ⟨settings, runs, profile⟩

/-- A variable says that JSON is not indented, and the file that is named says nothing; the tree is
written indented all the same, as the file leaves it by default. -/
theorem Run.ofWords_parse_named :
    let surroundings := Surroundings.ofFile [("TRANSMAT_PRETTY", "0")] "c.json" "\x7b\x7d"
    let overrides := Layer.ofVariables surroundings.environment.lookup
    Settings.ofFile .builtIn surroundings.files "c.json" = .ok .default ∧
      (Layer.ofFlags none false false).onto (overrides.onto (.ofSettings .default)) =
        ⟨.matlab, .json, false⟩ ∧
      Run.ofWords .builtIn ["--config", "c.json", "parse", "-"] surroundings =
        .done ⟨0, "\x7b\n  \"body\": []\n\x7d\n", ""⟩ ∧
      render .builtIn ⟨[]⟩ .json false = .ok "\x7b\"body\":[]\x7d" := by
  intro surroundings overrides
  have said : Libraries.builtIn.arguments surroundings.environment.lookup
      ["--config", "c.json", "parse", "-"] =
      .ok ⟨false, none, some "c.json", .parse "-" none false false⟩ := rfl
  have loaded : Settings.ofFile .builtIn surroundings.files "c.json" = .ok .default := rfl
  have input : sourceText surroundings "-" = .ok "" := rfl
  have reading : Reading.ofText .matlab "" = ⟨some (.ok ⟨[]⟩), [.started 0 .matlab, .finished 0]⟩ := by
    have empty : Token.ofText "" = [] := by decide +kernel
    rw [Reading.ofText, empty]
    rfl
  refine ⟨loaded, rfl, ?_, rfl⟩
  rw [Run.ofWords, said]
  simp only [Invocation.run, Invocation.settings, Libraries.builtIn, loaded, Command.run, input]
  exact congrArg Run.done (congrArg (parseAnswer .builtIn .default .warn "-") reading)

end MatlabFront.CommandLine
