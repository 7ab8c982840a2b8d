import Mathlib
import MatlabFront.Settings.BuiltIn

/-!
# Reading settings back

Every format reads the settings that it has written. The text of settings has three parts, one for
each section, and each is read by a few steps of the reader, whatever the others say. So the steps
are evaluated for the words of one section at a time, in front of any text, and then put together.
-/

namespace MatlabFront

/-- The characters of some texts in a row. -/
def charsOf (texts : List String) : List Char := texts.flatMap String.toList

/-- The first of some texts comes first. -/
theorem charsOf_cons (text : String) (texts : List String) :
    charsOf (text :: texts) = text.toList ++ charsOf texts := List.flatMap_cons

/-- No texts have no characters. -/
theorem charsOf_nil : charsOf [] = [] := rfl

namespace Settings

/-- The word for a truth value. -/
def truthWord (value : Bool) : String := if value then "true" else "false"

/-- The document that says settings in full. -/
def toDocument (settings : Settings) : Document :=
  .table [
    (some "parser", .table [(some "compat", .word settings.dialect.key)]),
    (some "output", .table [(some "format", .word settings.format.key),
      (some "pretty", .truth settings.pretty)]),
    (some "logging", .table [(some "level", .word settings.level.key),
      (some "debug", .truth settings.debug)])]

/-- A document that says settings in full says them in every convention. -/
theorem ofDocument?_toDocument (convention : Convention) (settings : Settings) :
    ofDocument? convention settings.toDocument = some settings := by
  obtain ⟨dialect, format, pretty, level, debug⟩ := settings
  cases dialect <;> cases format <;> cases level <;> rfl

end Settings

open Settings (truthWord)

namespace Toml

/-- The table of the dialect. -/
def parserPart (dialect : Dialect) : List String := ["[parser]\ncompat = \"", dialect.key, "\"\n"]

/-- The table of the form of output. -/
def outputPart (format : OutputFormat) (pretty : Bool) : List String :=
  ["\n[output]\nformat = \"", format.key, "\"\npretty = ", truthWord pretty, "\n"]

/-- The table of what is logged. -/
def loggingPart (level : Severity) (debug : Bool) : List String :=
  ["\n[logging]\nlevel = \"", level.key, "\"\ndebug = ", truthWord debug, "\n"]

/-- The text of settings is a table for each section. -/
theorem toList_write (settings : Settings) : (SettingsFormat.toml.write settings).toList =
    charsOf (parserPart settings.dialect) ++ (charsOf (outputPart settings.format settings.pretty)
      ++ charsOf (loggingPart settings.level settings.debug)) := by
  simp only [SettingsFormat.write, text, Settings.toDatum, table, fieldLines, value, parserPart,
    outputPart, loggingPart, truthWord, charsOf_cons, charsOf_nil, List.map_cons, List.map_nil,
    String.join_cons, String.join_nil, String.intercalate_cons_cons, String.intercalate_singleton,
    String.toList_append, String.reduceToList, List.append_assoc, List.cons_append, List.nil_append,
    List.append_nil]

variable (fuel : Nat) (heading : List String) (parser output : Node) (rest : List Char)

/-- The table of the dialect is read. -/
theorem build_parserPart (dialect : Dialect) :
    build (fuel + 2) [] [] (charsOf (parserPart dialect) ++ rest) =
      build fuel ["parser"]
        [("parser", .table .heading [("compat", .value (.word dialect.key))])] rest := by
  cases dialect <;> simp only [parserPart, charsOf_cons, charsOf_nil, Dialect.key,
    String.reduceToList, List.cons_append, List.nil_append] <;> rfl

/-- The table of the form of output is read. -/
theorem build_outputPart (format : OutputFormat) (pretty : Bool) :
    build (fuel + 3) heading [("parser", parser)] (charsOf (outputPart format pretty) ++ rest) =
      build fuel ["output"] [("parser", parser), ("output", .table .heading
        [("format", .value (.word format.key)), ("pretty", .value (.truth pretty))])] rest := by
  cases format <;> cases pretty <;> simp only [outputPart, charsOf_cons, charsOf_nil,
    OutputFormat.key, truthWord, Bool.false_eq_true, if_true, if_false, String.reduceToList,
    List.cons_append, List.nil_append] <;> rfl

/-- The table of what is logged is read. -/
theorem build_loggingPart (level : Severity) (debug : Bool) :
    build (fuel + 4) heading [("parser", parser), ("output", output)]
        (charsOf (loggingPart level debug)) =
      some [("parser", parser), ("output", output), ("logging", .table .heading
        [("level", .value (.word level.key)), ("debug", .value (.truth debug))])] := by
  cases level <;> cases debug <;> simp only [loggingPart, charsOf_cons, charsOf_nil, Severity.key,
    truthWord, Bool.false_eq_true, if_true, if_false, String.reduceToList, List.cons_append,
    List.nil_append] <;> rfl

/-- The text of settings says them in full. -/
theorem document?_write (settings : Settings) :
    ofText? (SettingsFormat.toml.write settings) = some settings.toDocument := by
  have text := toList_write settings
  obtain ⟨more, front⟩ : ∃ more, (SettingsFormat.toml.write settings).toList = '[' :: more := by
    simp only [text, parserPart, charsOf_cons, String.reduceToList, List.cons_append,
      List.cons.injEq, true_and, exists_eq']
  obtain ⟨fuel, enough⟩ :
      ∃ fuel, (SettingsFormat.toml.write settings).toList.length + 1 = fuel + 9 := by
    refine ⟨(SettingsFormat.toml.write settings).toList.length - 8, ?_⟩
    simp only [text, parserPart, charsOf_cons, String.reduceToList, List.length_append,
      List.length_cons]
    omega
  rw [ofText?, front]
  change (build (('[' :: more).length + 1) [] [] ('[' :: more)).map _ = _
  rw [← front, enough, text, build_parserPart, build_outputPart, build_loggingPart]
  rfl

end Toml

namespace Json

/-- The section of the dialect. -/
def parserPart (dialect : Dialect) : List String :=
  ["\n  \"parser\": \x7b\n    \"compat\": \"", dialect.key, "\"\n  \x7d,"]

/-- The section of the form of output. -/
def outputPart (format : OutputFormat) (pretty : Bool) : List String :=
  ["\n  \"output\": \x7b\n    \"format\": \"", format.key, "\",\n    \"pretty\": ",
    truthWord pretty, "\n  \x7d,"]

/-- The section of what is logged. -/
def loggingPart (level : Severity) (debug : Bool) : List String :=
  ["\n  \"logging\": \x7b\n    \"level\": \"", level.key, "\",\n    \"debug\": ",
    truthWord debug, "\n  \x7d\n\x7d"]

/-- Letters need no escape. -/
theorem flatMap_escapeChar {cs : List Char} (letters : cs.all Char.isLower = true) :
    cs.flatMap escapeChar = cs := by
  induction cs with
  | nil => rfl
  | cons c cs ih =>
    obtain ⟨lower, more⟩ : c.isLower = true ∧ cs.all Char.isLower = true := by simpa using letters
    have plain : escapeChar c = [c] := by
      have least : 97 ≤ c.toNat := by
        rw [Char.isLower, Bool.and_eq_true, decide_eq_true_iff] at lower
        exact UInt32.le_iff_toNat_le.mp lower.1
      have apart : ∀ d : Char, d.toNat < 97 → c ≠ d := by
        rintro d below rfl
        omega
      rw [escapeChar, if_neg (apart _ (by decide)), if_neg (apart _ (by decide)),
        if_neg (apart _ (by decide)), if_neg (apart _ (by decide)), if_neg (apart _ (by decide)),
        if_neg (apart _ (by decide)), if_neg (apart _ (by decide)), if_neg (by omega)]
    rw [List.flatMap_cons, plain, ih more, List.singleton_append]

/-- The words for settings are letters. -/
theorem letters_key (settings : Settings) : settings.dialect.key.toList.all Char.isLower = true ∧
    settings.format.key.toList.all Char.isLower = true ∧
    settings.level.key.toList.all Char.isLower = true := by
  refine ⟨?_, ?_, ?_⟩
  · cases settings.dialect <;> simp only [Dialect.key, String.reduceToList] <;> decide
  · cases settings.format <;> simp only [OutputFormat.key, String.reduceToList] <;> decide
  · cases settings.level <;> simp only [Severity.key, String.reduceToList] <;> decide

/-- The text of settings is an object with a member for each section. -/
theorem toList_write (settings : Settings) : (SettingsFormat.json.write settings).toList =
    '\x7b' :: (charsOf (parserPart settings.dialect)
      ++ (charsOf (outputPart settings.format settings.pretty)
        ++ charsOf (loggingPart settings.level settings.debug))) := by
  obtain ⟨dialect, format, level⟩ := letters_key settings
  simp (disch := decide) only [SettingsFormat.write, Settings.toDatum, Datum.toJson,
    Datum.fieldsToJson, indented, indentedAt, indentedMembers, newLine, quote, parserPart,
    outputPart, loggingPart, truthWord, flatMap_escapeChar dialect, flatMap_escapeChar format,
    flatMap_escapeChar level, flatMap_escapeChar, charsOf_cons, charsOf_nil, List.replicate,
    String.toList_append, String.toList_ofList, String.reduceToList, List.append_assoc,
    List.cons_append, List.nil_append, List.append_nil]

/-- A string of characters that are written as they are. -/
def parts (text : String) : List StringPart := text.toList.map .char

/-- The characters of a string are its value. -/
theorem stringValue?_parts (text : String) : stringValue? (parts text) = some text := by
  have chars (cs : List Char) : stringChars? (cs.map .char) = some cs := by
    induction cs with
    | nil => rfl
    | cons c cs ih => rw [List.map_cons, stringChars?, ih, Option.map_some]
  rw [stringValue?, parts, chars, Option.map_some, String.ofList_toList]

variable (fuel : Nat) (rest : List Char)

/-- The section of the dialect is read. -/
theorem members?_parserPart (dialect : Dialect) :
    members? (fuel + 4) (charsOf (parserPart dialect) ++ rest) =
      (members? (fuel + 3) rest).bind fun (members, rest) =>
        some ((parts "parser", .object [(parts "compat", .string (parts dialect.key))]) :: members,
          rest) := by
  cases dialect <;> simp only [parserPart, parts, charsOf_cons, charsOf_nil, Dialect.key,
    String.reduceToList, List.cons_append, List.nil_append, List.map_cons, List.map_nil] <;> rfl

/-- The section of the form of output is read. -/
theorem members?_outputPart (format : OutputFormat) (pretty : Bool) :
    members? (fuel + 5) (charsOf (outputPart format pretty) ++ rest) =
      (members? (fuel + 4) rest).bind fun (members, rest) =>
        some ((parts "output", .object [(parts "format", .string (parts format.key)),
          (parts "pretty", .bool pretty)]) :: members, rest) := by
  cases format <;> cases pretty <;> simp only [outputPart, parts, charsOf_cons, charsOf_nil,
    OutputFormat.key, truthWord, Bool.false_eq_true, if_true, if_false, String.reduceToList,
    List.cons_append, List.nil_append, List.map_cons, List.map_nil] <;> rfl

/-- The section of what is logged is read, and the end of the object behind it. -/
theorem members?_loggingPart (level : Severity) (debug : Bool) :
    members? (fuel + 5) (charsOf (loggingPart level debug)) =
      some ([(parts "logging", .object [(parts "level", .string (parts level.key)),
        (parts "debug", .bool debug)])], []) := by
  cases level <;> cases debug <;> simp only [loggingPart, parts, charsOf_cons, charsOf_nil,
    Severity.key, truthWord, Bool.false_eq_true, if_true, if_false, String.reduceToList,
    List.cons_append, List.nil_append, List.map_cons, List.map_nil] <;> rfl

/-- A brace in front of the section of the dialect opens an object. -/
theorem value?_parserPart (dialect : Dialect) :
    value? (fuel + 1) ('\x7b' :: (charsOf (parserPart dialect) ++ rest)) =
      (members? fuel (charsOf (parserPart dialect) ++ rest)).map fun (members, rest) =>
        (.object members, rest) := by
  simp only [parserPart, charsOf_cons, String.reduceToList, List.cons_append]
  rfl

/-- The text of settings says them in full. -/
theorem document?_write (settings : Settings) :
    (Written.ofText? (SettingsFormat.json.write settings)).map Document.ofWritten =
      some settings.toDocument := by
  have text := toList_write settings
  obtain ⟨fuel, enough⟩ :
      ∃ fuel, 2 * (SettingsFormat.json.write settings).toList.length + 2 = fuel + 8 := by
    refine ⟨2 * (SettingsFormat.json.write settings).toList.length - 6, ?_⟩
    simp only [text, parserPart, charsOf_cons, String.reduceToList, List.length_cons,
      List.length_append]
    omega
  rw [Written.ofText?, enough, text, value?_parserPart, members?_parserPart, members?_outputPart,
    members?_loggingPart]
  simp only [Option.bind_eq_bind, Option.bind_some, Option.map_some, skipBlanks,
    List.dropWhile_nil, List.isEmpty_nil, if_true, Document.ofWritten, Document.ofWrittenMembers,
    stringValue?_parts, Option.elim_some, Settings.toDocument]

end Json

namespace Yaml

/-- The section of the dialect, and the name of the next one. -/
def parserPart (dialect : Dialect) : List String :=
  ["parser:\n  compat: ", dialect.key, "\noutput:"]

/-- The section of the form of output, and the name of the next one. -/
def outputPart (format : OutputFormat) (pretty : Bool) : List String :=
  ["\n  format: ", format.key, "\n  pretty: ", truthWord pretty, "\nlogging:"]

/-- The section of what is logged. -/
def loggingPart (level : Severity) (debug : Bool) : List String :=
  ["\n  level: ", level.key, "\n  debug: ", truthWord debug, "\n"]

/-- A word that is written without quotes. -/
def Bare (word : String) : Prop :=
  needsEscapes word.toList = false ∧ readsOtherwise word = false ∧ needsQuotes word.toList = false

instance (word : String) : Decidable (Bare word) := inferInstanceAs (Decidable (_ ∧ _))

/-- Such a word is a scalar as it is. -/
theorem Bare.scalar {word : String} (bare : Bare word) (indent : Nat) :
    Yaml.scalar indent word = word := by
  obtain ⟨noEscapes, noOther, noQuotes⟩ := bare
  simp [Yaml.scalar, noEscapes, noOther, noQuotes]

/-- The text of settings is a table of tables in block style. -/
theorem toList_write (settings : Settings) : (SettingsFormat.yaml.write settings).toList =
    charsOf (parserPart settings.dialect) ++ (charsOf (outputPart settings.format settings.pretty)
      ++ charsOf (loggingPart settings.level settings.debug)) := by
  have dialect : Bare settings.dialect.key := by cases settings.dialect <;> decide +kernel
  have format : Bare settings.format.key := by cases settings.format <;> decide +kernel
  have level : Bare settings.level.key := by cases settings.level <;> decide +kernel
  simp only [SettingsFormat.write, text?, Settings.toDatum, entries?, value?, stack, tagText,
    blanks, parserPart, outputPart, loggingPart, truthWord, dialect.scalar, format.scalar,
    level.scalar, charsOf_cons, charsOf_nil, Option.bind_eq_bind, Option.bind_some, Option.map_some,
    Option.getD_some, List.map_cons, List.map_nil, List.replicate, String.join_cons,
    String.join_nil, String.toList_append, String.toList_ofList, String.reduceToList,
    List.append_assoc, List.cons_append, List.nil_append, List.append_nil]

/-- A scalar without quotes. -/
abbrev plain (text : String) : Piece := .scalar .plain text

/-- The pieces up to the form of output, the last first. -/
def behindParser (dialect : String) : List Piece :=
  [.value, plain "output", .key, .blockEnd, plain dialect, .value, plain "compat", .key,
    .blockTableStart, .value, plain "parser", .key, .blockTableStart]

/-- The pieces up to what is logged, the last first. -/
def behindOutput (dialect format pretty : String) : List Piece :=
  [.value, plain "logging", .key, .blockEnd, plain pretty, .value, plain "pretty", .key,
    plain format, .value, plain "format", .key, .blockTableStart] ++ behindParser dialect

/-- All pieces, the last first. -/
def behindLogging (dialect format pretty level debug : String) : List Piece :=
  [.blockEnd, .blockEnd, plain debug, .value, plain "debug", .key, plain level, .value,
    plain "level", .key, .blockTableStart] ++ behindOutput dialect format pretty

variable (steps : Nat) (rest : List Char)

/-- The section of the dialect is read. -/
theorem readAll?_parserPart (dialect : Dialect) :
    Cursor.readAll? (steps + 7)
        (.start (glyphsFrom 0 0 (charsOf (parserPart dialect) ++ '\n' :: ' ' :: ' ' :: rest))) =
      Cursor.readAll? steps ⟨glyphsFrom 2 7 ('\n' :: ' ' :: ' ' :: rest), [0], none, [], false,
        behindParser dialect.key⟩ := by
  cases dialect <;> simp only [parserPart, charsOf_cons, charsOf_nil, Dialect.key,
    String.reduceToList, List.cons_append, List.nil_append] <;> cbv

/-- The section of the form of output is read. -/
theorem readAll?_outputPart (dialect : String) (format : OutputFormat) (pretty : Bool) :
    Cursor.readAll? (steps + 8) ⟨glyphsFrom 2 7
        (charsOf (outputPart format pretty) ++ '\n' :: ' ' :: ' ' :: rest), [0], none, [], false,
        behindParser dialect⟩ =
      Cursor.readAll? steps ⟨glyphsFrom 5 8 ('\n' :: ' ' :: ' ' :: rest), [0], none, [], false,
        behindOutput dialect format.key (truthWord pretty)⟩ := by
  cases format <;> cases pretty <;> simp only [outputPart, charsOf_cons, charsOf_nil,
    OutputFormat.key, truthWord, Bool.false_eq_true, if_true, if_false, String.reduceToList,
    List.cons_append, List.nil_append] <;> cbv

/-- The section of what is logged is read, and the end of the text behind it. -/
theorem readAll?_loggingPart (dialect format pretty : String) (level : Severity) (debug : Bool) :
    Cursor.readAll? (steps + 7) ⟨glyphsFrom 5 8 (charsOf (loggingPart level debug)), [0], none, [],
        false, behindOutput dialect format pretty⟩ =
      some (behindLogging dialect format pretty level.key (truthWord debug)) := by
  cases level <;> cases debug <;> simp only [loggingPart, charsOf_cons, charsOf_nil,
    Severity.key, truthWord, Bool.false_eq_true, if_true, if_false, String.reduceToList,
    List.cons_append, List.nil_append] <;> cbv

/-- A node of a scalar without quotes. -/
abbrev leaf (text : String) : Node := .scalar ⟨none, none⟩ .plain text

/-- The node of settings. -/
def settingsNode (dialect format pretty level debug : String) : Node :=
  .table ⟨none, none⟩ [
    (leaf "parser", .table ⟨none, none⟩ [(leaf "compat", leaf dialect)]),
    (leaf "output",
      .table ⟨none, none⟩ [(leaf "format", leaf format), (leaf "pretty", leaf pretty)]),
    (leaf "logging", .table ⟨none, none⟩ [(leaf "level", leaf level), (leaf "debug", leaf debug)])]

/-- The pieces of settings are those of their node. -/
theorem node?_behindLogging (dialect format pretty level debug : String) :
    node? (behindLogging dialect format pretty level debug).reverse =
      some (some (settingsNode dialect format pretty level debug)) := by
  rfl

/-- A character that stands for itself when a text is cut into glyphs. -/
def isOrdinary (c : Char) : Bool := isAllowed c && c != '\r' && c != '\u0085'

/-- A text of such characters has the line ends that it shows. -/
theorem withNewlines_of_ordinary {cs : List Char} (ordinary : cs.all isOrdinary = true) :
    withNewlines cs = cs := by
  induction cs with
  | nil => rfl
  | cons c cs ih =>
    obtain ⟨first, more⟩ : isOrdinary c = true ∧ cs.all isOrdinary = true := by simpa using ordinary
    simp only [isOrdinary, Bool.and_eq_true, bne_iff_ne] at first
    rw [withNewlines.eq_def]
    split <;> simp_all

/-- A text has as many glyphs as characters. -/
theorem length_glyphsFrom (line column : Nat) (cs : List Char) :
    (glyphsFrom line column cs).length = cs.length := by
  induction cs generalizing line column with
  | nil => rfl
  | cons c cs ih => rw [glyphsFrom]; split <;> simp [ih]

/-- The text of settings has no characters but those. -/
theorem ordinary_write (settings : Settings) :
    (SettingsFormat.yaml.write settings).toList.all isOrdinary = true := by
  have parser (dialect : Dialect) : (charsOf (parserPart dialect)).all isOrdinary = true := by
    cases dialect <;> simp only [parserPart, charsOf_cons, charsOf_nil, Dialect.key,
      String.reduceToList, List.cons_append, List.nil_append] <;> decide
  have output (format : OutputFormat) (pretty : Bool) :
      (charsOf (outputPart format pretty)).all isOrdinary = true := by
    cases format <;> cases pretty <;> simp only [outputPart, charsOf_cons, charsOf_nil,
      OutputFormat.key, truthWord, Bool.false_eq_true, if_true, if_false, String.reduceToList,
      List.cons_append, List.nil_append] <;> decide
  have logging (level : Severity) (debug : Bool) :
      (charsOf (loggingPart level debug)).all isOrdinary = true := by
    cases level <;> cases debug <;> simp only [loggingPart, charsOf_cons, charsOf_nil,
      Severity.key, truthWord, Bool.false_eq_true, if_true, if_false, String.reduceToList,
      List.cons_append, List.nil_append] <;> decide
  simp only [toList_write, List.all_append, parser, output, logging, Bool.and_self]

/-- The text of settings is cut into glyphs character by character. -/
theorem glyphs_write (settings : Settings) :
    glyphs (SettingsFormat.yaml.write settings).toList =
      glyphsFrom 0 0 (SettingsFormat.yaml.write settings).toList := by
  obtain ⟨more, front⟩ : ∃ more, (SettingsFormat.yaml.write settings).toList = 'p' :: more := by
    simp only [toList_write, parserPart, charsOf_cons, String.reduceToList, List.cons_append,
      List.cons.injEq, true_and, exists_eq']
  rw [glyphs, withNewlines_of_ordinary (ordinary_write settings), front]
  rfl

/-- The pieces of the text of settings. -/
theorem pieces?_write (settings : Settings) : pieces? (SettingsFormat.yaml.write settings).toList =
    some (behindLogging settings.dialect.key settings.format.key (truthWord settings.pretty)
      settings.level.key (truthWord settings.debug)).reverse := by
  have text := toList_write settings
  have allowed : (SettingsFormat.yaml.write settings).toList.all isAllowed = true := by
    have ordinary := ordinary_write settings
    simp only [List.all_eq_true, isOrdinary, Bool.and_eq_true] at ordinary ⊢
    exact fun c mem => (ordinary c mem).1.1
  obtain ⟨steps, enough⟩ :
      ∃ steps, (SettingsFormat.yaml.write settings).toList.length + 1 = steps + 22 := by
    refine ⟨(SettingsFormat.yaml.write settings).toList.length - 21, ?_⟩
    simp only [text, parserPart, charsOf_cons, String.reduceToList, List.length_cons,
      List.length_append]
    omega
  obtain ⟨_, output⟩ : ∃ more, charsOf (outputPart settings.format settings.pretty)
      ++ charsOf (loggingPart settings.level settings.debug) = '\n' :: ' ' :: ' ' :: more := by
    simp only [outputPart, charsOf_cons, String.reduceToList, List.cons_append, List.cons.injEq,
      true_and, exists_eq']
  obtain ⟨_, logging⟩ : ∃ more,
      charsOf (loggingPart settings.level settings.debug) = '\n' :: ' ' :: ' ' :: more := by
    simp only [loggingPart, charsOf_cons, String.reduceToList, List.cons_append, List.cons.injEq,
      true_and, exists_eq']
  rw [pieces?, if_pos allowed]
  simp only [glyphs_write, length_glyphsFrom, enough]
  rw [text, output, readAll?_parserPart, ← output, logging, readAll?_outputPart, ← logging,
    readAll?_loggingPart, Option.map_some]

/-- The text of settings says them in full. -/
theorem document?_write (settings : Settings) :
    ofText? (SettingsFormat.yaml.write settings) = some settings.toDocument := by
  have dialect : plainDocument settings.dialect.key = .word settings.dialect.key := by
    cases settings.dialect <;> rfl
  have format : plainDocument settings.format.key = .word settings.format.key := by
    cases settings.format <;> rfl
  have level : plainDocument settings.level.key = .word settings.level.key := by
    cases settings.level <;> rfl
  have truth (value : Bool) : plainDocument (truthWord value) = .truth value := by
    cases value <;> rfl
  rw [ofText?, pieces?_write]
  simp only [Option.bind_eq_bind, Option.bind_some, node?_behindLogging, Option.elim_some,
    settingsNode, nodeDocument, depth, withCase, scalarDocument, keyText?, List.map_cons,
    List.map_nil, Option.bind_none, dialect, format, level, truth, Settings.toDocument]

end Yaml

/-- A format says in full the settings that it has written. -/
theorem SettingsFormat.document?_write (format : SettingsFormat) (settings : Settings) :
    format.document? (format.write settings) = some settings.toDocument := by
  cases format with
  | yaml => exact Yaml.document?_write settings
  | json => exact Json.document?_write settings
  | toml => exact Toml.document?_write settings

/-- A format reads back the settings that it has written. -/
theorem SettingsFormat.read?_write (format : SettingsFormat) (settings : Settings) :
    format.read? (format.write settings) = some settings := by
  rw [read?, document?_write, Option.bind_eq_bind, Option.bind_some,
    Settings.ofDocument?_toDocument]

/-- Every built-in codec reads back what it has written. -/
theorem SettingsCodecs.readsBack_builtIn (format : SettingsFormat) :
    (SettingsCodecs.builtIn format).ReadsBack := by
  intro settings text written
  obtain rfl : format.write settings = text := Except.ok.inj written
  simp only [builtIn, SettingsFormat.read?_write]

end MatlabFront
