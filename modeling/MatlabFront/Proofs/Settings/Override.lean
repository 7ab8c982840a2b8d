import Mathlib.Logic.Function.Basic
import MatlabFront.Settings.Search

/-!
# Overriding settings

Each of five variables may override one setting. It does so by one of the words for the values of its
setting, in letters of any case. Where it is not set, or its text is none of these words, the setting
is meant to stay as it was. For four of the settings it does; the switch for debug notices is turned
off by a text that is no word for it.
-/

namespace MatlabFront

/-- The words for the dialects. -/
def Dialect.words : List (String × Dialect) := [("matlab", .matlab), ("strict", .strict)]

/-- The words for the forms of output. -/
def OutputFormat.words : List (String × OutputFormat) :=
  [("json", .json), ("yaml", .yaml), ("debug", .debug)]

/-- The words for the severities. -/
def Severity.words : List (String × Severity) :=
  [("error", .error), ("warn", .warn), ("info", .info), ("debug", .debug), ("trace", .trace)]

namespace Settings

/-- The words that turn a switch on. -/
def onWords : List String := ["1", "true", "yes", "on", "enable", "enabled"]

/-- The words that turn a switch off, and the empty text. -/
def offWords : List String := ["0", "false", "no", "off", "disable", "disabled", ""]

/-- The words for the positions of a switch. -/
def switchWords : List (String × Bool) := onWords.map (·, true) ++ offWords.map (·, false)

/-- Two texts have the same letters, in whatever case. -/
def SameLetters (text word : String) : Prop :=
  text.toList.map Char.toLower = word.toList.map Char.toLower

/-- A text says a value by one of some words. -/
def Says {α : Type} (words : List (String × α)) (text : String) (value : α) : Prop :=
  ∃ word, (word, value) ∈ words ∧ SameLetters text word

/-- A variable that may be set to a text makes one value of a setting out of another: the value that
the text says. The setting stays as it was when the variable is not set, and has the value `otherwise`
when the text says nothing. -/
structure Overrides {α : Type} (words : List (String × α)) (text? : Option String)
    (before otherwise after : α) : Prop where
  said : ∀ text ∈ text?, ∀ value, Says words text value → after = value
  unset : text? = none → after = before
  unsaid : ∀ text ∈ text?, (∀ value, ¬Says words text value) → after = otherwise

/-- Settings become others by the overrides of the variables. Each variable sets a setting of its own and
leaves it alone when it says nothing, except that debug notices are then off. -/
structure Overridden (lookup : String → Option String) (before after : Settings) : Prop where
  dialect : Overrides Dialect.words (lookup "TRANSMAT_COMPAT") before.dialect before.dialect
    after.dialect
  format : Overrides OutputFormat.words (lookup "TRANSMAT_FORMAT") before.format before.format
    after.format
  pretty : Overrides switchWords (lookup "TRANSMAT_PRETTY") before.pretty before.pretty after.pretty
  level : Overrides Severity.words (lookup "TRANSMAT_LOG_LEVEL") before.level before.level after.level
  debug : Overrides switchWords (lookup "TRANSMAT_DEBUG") before.debug false after.debug

section Words

variable {α : Type} {words : List (String × α)} {read : String → Option α} {text word : String}

/-- Words in lower case are recognized by the text in lower case. -/
theorem sameLetters_iff (plain : lower word = word) : SameLetters text word ↔ lower text = word := by
  rw [SameLetters, ← String.ofList_inj]
  exact ⟨fun same => same.trans plain, fun same => same.trans plain.symm⟩

/-- The words that say a value are looked for in lower case. -/
theorem mem_words_iff (plain : ∀ entry ∈ words, lower entry.1 = entry.1) {value : α} :
    (lower text, value) ∈ words ↔ Says words text value := by
  constructor
  · intro inside
    exact ⟨lower text, inside, (sameLetters_iff (plain _ inside)).mpr rfl⟩
  · rintro ⟨word, inside, same⟩
    rwa [(sameLetters_iff (plain _ inside)).mp same]

/-- Where each value has a word of its own, the first value of a word is the only one. -/
theorem find?_key_iff {values : List α} {key : α → String}
    (apart : ∀ first ∈ values, ∀ second ∈ values, key first = key second → first = second)
    (value : α) : values.find? (key · == word) = some value ↔
      (word, value) ∈ values.map fun value => (key value, value) := by
  have entry : (word, value) ∈ values.map (fun value => (key value, value)) ↔
      value ∈ values ∧ key value = word := by
    simp only [List.mem_map, Prod.mk.injEq]
    constructor
    · rintro ⟨other, inside, same, rfl⟩
      exact ⟨inside, same⟩
    · rintro ⟨inside, same⟩
      exact ⟨value, inside, same, rfl⟩
  rw [entry]
  constructor
  · intro found
    exact ⟨List.mem_of_find?_eq_some found, by simpa using List.find?_some found⟩
  · rintro ⟨inside, rfl⟩
    cases found : values.find? (key · == key value) with
    | none => simpa using List.find?_eq_none.mp found value inside
    | some other =>
      have same : key other = key value := by simpa using List.find?_some found
      rw [apart other (List.mem_of_find?_eq_some found) value inside same]

/-- A setting that takes what is read from a text is overridden by the words that the reader knows. -/
theorem overrides_elim (reads : ∀ text value, read text = some value ↔ Says words text value)
    (text? : Option String) (before otherwise : α) :
    Overrides words text? before otherwise
      (text?.elim before fun text => (read text).getD otherwise) where
  said text set value known := by
    rw [set, Option.elim_some, (reads text value).mpr known, Option.getD_some]
  unset unset := by rw [unset, Option.elim_none]
  unsaid text set silent := by
    have unread : read text = none := Option.eq_none_iff_forall_ne_some.mpr fun value known =>
      silent value ((reads text value).mp known)
    rw [set, Option.elim_some, unread, Option.getD_none]

/-- A setting that is read or stays as it was is left alone by a text that says nothing. -/
theorem overrides_overridden (reads : ∀ text value, read text = some value ↔ Says words text value)
    (text? : Option String) (before : α) :
    Overrides words text? before before (overridden text? read before) := by
  have same : overridden text? read before =
      text?.elim before fun text => (read text).getD before := by cases text? <;> rfl
  rw [same]
  exact overrides_elim reads text? before before

/-- What is made of a setting is what it would be if it were left alone by a text that says nothing,
exactly when such a text would leave it so or the variable has no such text. -/
theorem Overrides.kept_iff {text? : Option String} {before otherwise after : α}
    (overrides : Overrides words text? before otherwise after) :
    Overrides words text? before before after ↔
      otherwise = before ∨ text? = none ∨ ∃ text ∈ text?, ∃ value, Says words text value := by
  constructor
  · intro kept
    cases text? with
    | none => exact .inr (.inl rfl)
    | some text =>
      by_cases silent : ∀ value, ¬Says words text value
      · exact .inl ((overrides.unsaid text rfl silent).symm.trans (kept.unsaid text rfl silent))
      · exact .inr (.inr ⟨text, rfl, by simpa using silent⟩)
  · intro spared
    refine ⟨overrides.said, overrides.unset, fun text set silent => ?_⟩
    obtain rfl | unset | ⟨other, set', value, known⟩ := spared
    · exact overrides.unsaid text set silent
    · rw [unset] at set
      cases set
    · obtain rfl : other = text := Option.some.inj (set'.symm.trans set)
      exact absurd known (silent value)

/-- A variable leaves no choice of what it makes of a setting. -/
theorem Overrides.unique {text? : Option String} {before otherwise after other : α}
    (first : Overrides words text? before otherwise after)
    (second : Overrides words text? before otherwise other) : after = other := by
  cases text? with
  | none => rw [first.unset rfl, second.unset rfl]
  | some text =>
    by_cases silent : ∀ value, ¬Says words text value
    · rw [first.unsaid text rfl silent, second.unsaid text rfl silent]
    · obtain ⟨value, known⟩ : ∃ value, Says words text value := by simpa using silent
      rw [first.said text rfl value known, second.said text rfl value known]

end Words

section Readers

variable (text : String)

/-- The dialects are read by their words. -/
theorem ofKey?_dialect (value : Dialect) :
    Dialect.ofKey? (lower text) = some value ↔ Says Dialect.words text value := by
  rw [← mem_words_iff (by decide)]
  exact find?_key_iff (by decide) value

/-- The forms of output are read by their words. -/
theorem ofKey?_format (value : OutputFormat) :
    OutputFormat.ofKey? (lower text) = some value ↔ Says OutputFormat.words text value := by
  rw [← mem_words_iff (by decide)]
  exact find?_key_iff (by decide) value

/-- The severities are read by their words. -/
theorem ofKey?_severity (value : Severity) :
    Severity.ofKey? (lower text) = some value ↔ Says Severity.words text value := by
  rw [← mem_words_iff (by decide)]
  exact find?_key_iff (by decide) value

/-- The positions of a switch are read by their words. -/
theorem switch?_eq_some_iff (value : Bool) :
    switch? text = some value ↔ Says switchWords text value := by
  have apart : ∀ word ∈ offWords, word ∉ onWords := by decide
  have entry : (lower text, value) ∈ switchWords ↔
      value = true ∧ lower text ∈ onWords ∨ value = false ∧ lower text ∈ offWords := by
    simp [switchWords, and_comm, eq_comm]
  have read : switch? text = if lower text ∈ onWords then some true
      else if lower text ∈ offWords then some false else none := by
    simp [switch?, onWords, offWords]
  rw [← mem_words_iff (by decide), entry, read]
  by_cases on : lower text ∈ onWords
  · have notOff : lower text ∉ offWords := fun off => apart _ off on
    simp [on, notOff, eq_comm]
  · by_cases off : lower text ∈ offWords <;> simp [on, off, eq_comm]

end Readers

/-- The overrides are those of the variables. -/
theorem overridden_override (lookup : String → Option String) (settings : Settings) :
    Overridden lookup settings (settings.override lookup) where
  dialect := overrides_overridden ofKey?_dialect _ _
  format := overrides_overridden ofKey?_format _ _
  pretty := overrides_overridden switch?_eq_some_iff _ _
  level := overrides_overridden ofKey?_severity _ _
  debug := by
    have same : (settings.override lookup).debug =
        (lookup "TRANSMAT_DEBUG").elim settings.debug fun text => (switch? text).getD false := by
      cases known : lookup "TRANSMAT_DEBUG" <;> simp [override, known]
    rw [same]
    exact overrides_elim switch?_eq_some_iff _ settings.debug false

/-- What the variables make of each setting. Four of them set it to the value that they say and leave
it alone otherwise. The one for debug notices turns them off when it is set to a text that says
nothing, so that it leaves its setting alone exactly when the notices were off already, or it is not
set, or it says something. No variable matters to the setting of another. -/
theorem override_exact (settings : Settings) (lookup : String → Option String) :
    let after := settings.override lookup
    let debug := lookup "TRANSMAT_DEBUG"
    Overrides Dialect.words (lookup "TRANSMAT_COMPAT") settings.dialect settings.dialect
        after.dialect ∧
      Overrides OutputFormat.words (lookup "TRANSMAT_FORMAT") settings.format settings.format
        after.format ∧
      Overrides switchWords (lookup "TRANSMAT_PRETTY") settings.pretty settings.pretty
        after.pretty ∧
      Overrides Severity.words (lookup "TRANSMAT_LOG_LEVEL") settings.level settings.level
        after.level ∧
      Overrides switchWords debug settings.debug false after.debug ∧
      (Overrides switchWords debug settings.debug settings.debug after.debug ↔
        settings.debug = false ∨ debug = none ∨
          ∃ text ∈ debug, ∃ value, Says switchWords text value) ∧
      ∀ name text?, let other := settings.override (Function.update lookup name text?)
        (name ≠ "TRANSMAT_COMPAT" → other.dialect = after.dialect) ∧
          (name ≠ "TRANSMAT_FORMAT" → other.format = after.format) ∧
          (name ≠ "TRANSMAT_PRETTY" → other.pretty = after.pretty) ∧
          (name ≠ "TRANSMAT_LOG_LEVEL" → other.level = after.level) ∧
          (name ≠ "TRANSMAT_DEBUG" → other.debug = after.debug) := by
  intro after debug
  obtain ⟨dialect, format, pretty, level, notices⟩ := overridden_override lookup settings
  refine ⟨dialect, format, pretty, level, notices, ?_, fun name text? => ?_⟩
  · rw [notices.kept_iff, eq_comm (a := false)]
  · have elsewhere {own : String} (apart : name ≠ own) :
        Function.update lookup name text? own = lookup own :=
      Function.update_of_ne (Ne.symm apart) text? lookup
    refine ⟨fun apart => ?_, fun apart => ?_, fun apart => ?_, fun apart => ?_, fun apart => ?_⟩ <;>
      simp only [after, override, elsewhere apart]

/-- Debug notices are on, and the variable for them is set to a text that says nothing. They are
turned off, although nothing was said. -/
theorem override_silenced :
    let lookup := fun name => if name = "TRANSMAT_DEBUG" then some "maybe" else none
    let settings := { default with debug := true }
    (∀ value, ¬Says switchWords "maybe" value) ∧ settings.debug = true ∧
      (settings.override lookup).debug = false ∧
      ¬Overrides switchWords (lookup "TRANSMAT_DEBUG") settings.debug settings.debug
        (settings.override lookup).debug := by
  intro lookup settings
  have silent : ∀ value, ¬Says switchWords "maybe" value := by
    intro value known
    rw [← switch?_eq_some_iff] at known
    revert known
    cases value <;> decide
  refine ⟨silent, rfl, rfl, fun kept => ?_⟩
  have stays := kept.unsaid "maybe" rfl silent
  exact absurd stays (by decide)

end Settings

end MatlabFront
