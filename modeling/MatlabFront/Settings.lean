import MatlabFront.Datum
import MatlabFront.Document
import MatlabFront.Event

/-!
# Settings

The settings of the program, in three sections: the dialect of the parser, the form of the output,
and what is logged. Each setting has a default. A settings document may leave out any part; parts it
does not know are ignored, but a known part may be given only once.
-/

namespace MatlabFront

/-- The forms in which a tree is written. -/
inductive OutputFormat where
  | json
  | yaml
  | debug
  deriving DecidableEq

/-- The word for a form of output. -/
def OutputFormat.key : OutputFormat → String
  | json => "json"
  | yaml => "yaml"
  | debug => "debug"

/-- The form of output of a word. -/
def OutputFormat.ofKey? (key : String) : Option OutputFormat :=
  [json, yaml, debug].find? (·.key == key)

/-- The word for a severity. -/
def Severity.key : Severity → String
  | error => "error"
  | warn => "warn"
  | info => "info"
  | debug => "debug"
  | trace => "trace"

/-- The severity of a word. -/
def Severity.ofKey? (key : String) : Option Severity :=
  [error, warn, info, debug, trace].find? (·.key == key)

/-- The settings. -/
@[ext]
structure Settings where
  dialect : Dialect
  format : OutputFormat
  /-- JSON is written with one part a line. -/
  pretty : Bool
  level : Severity
  /-- Debug notices are shown, whatever the level. -/
  debug : Bool
  deriving DecidableEq

namespace Settings

/-- The settings where nothing else is said. -/
def default : Settings := ⟨.matlab, .json, true, .warn, false⟩

/-- The gravest notices that are not shown are just below this one. -/
def limit (settings : Settings) : Severity := if settings.debug then .debug else settings.level

/-- The datum of settings, in sections. -/
def toDatum (settings : Settings) : Datum :=
  .record "Settings" [
    ("parser", .record "Parser" [("compat", .atom settings.dialect.key)]),
    ("output", .record "Output" [("format", .atom settings.format.key),
      ("pretty", .truth settings.pretty)]),
    ("logging", .record "Logging" [("level", .atom settings.level.key),
      ("debug", .truth settings.debug)])]

/-- How a format writes what a settings document can say in several ways. -/
structure Convention where
  /-- A value that holds nothing, where the name of a case may be written with one. -/
  holdsNothing : Document → Bool
  /-- A list of parts may go on behind the last of them. -/
  surplus : Bool

/-- The parts of a section by name. Parts may also be listed in order, and an empty value is an empty
section. -/
def parts? (convention : Convention) (names : List String) :
    Document → Option (List (Option Document))
  | .blank => some (names.map fun _ => none)
  | .list items =>
    if convention.surplus ∨ items.length ≤ names.length then
      some ((items.take names.length).map some
        ++ List.replicate (names.length - items.length) none)
    else none
  | .table entries =>
    if entries.all (·.1.isSome) then
      names.mapM fun name =>
        match entries.filter (·.1 == some name) with
        | [] => some none
        | [(_, part)] => some (some part)
        | _ => none
    else none
  | .tagged _ content => parts? convention names content
  | _ => none

/-- A setting that is one of some words. In some formats the word may be the name of a table entry
that holds nothing, and in some it may be a tag. -/
def choice? {α : Type} (convention : Convention) (ofKey? : String → Option α) :
    Document → Option α
  | .word key => ofKey? key
  | .table [(some key, content)] => if convention.holdsNothing content then ofKey? key else none
  | .tagged key .blank | .tagged key .null => ofKey? key
  | _ => none

/-- A setting that is a truth value. -/
def truth? : Document → Option Bool
  | .truth value => some value
  | .tagged _ content => truth? content
  | _ => none

/-- A part that may be left out. -/
def orDefault {α : Type} (value : α) (read : Document → Option α) : Option Document → Option α
  | none => some value
  | some part => read part

/-- The dialect that the parser section says. -/
def dialectOf? (convention : Convention) (part : Document) : Option Dialect := do
  match ← parts? convention ["compat"] part with
  | [dialect] => orDefault .matlab (choice? convention Dialect.ofKey?) dialect
  | _ => none

/-- The form of output that the output section says. -/
def outputOf? (convention : Convention) (part : Document) :
    Option (OutputFormat × Bool) := do
  match ← parts? convention ["format", "pretty"] part with
  | [format, pretty] =>
    some (← orDefault .json (choice? convention OutputFormat.ofKey?) format,
      ← orDefault true truth? pretty)
  | _ => none

/-- What the logging section says. -/
def loggingOf? (convention : Convention) (part : Document) :
    Option (Severity × Bool) := do
  match ← parts? convention ["level", "debug"] part with
  | [level, debug] =>
    some (← orDefault .warn (choice? convention Severity.ofKey?) level,
      ← orDefault false truth? debug)
  | _ => none

/-- The settings that a document says, in a format of a convention. -/
def ofDocument? (convention : Convention) (document : Document) : Option Settings := do
  match ← parts? convention ["parser", "output", "logging"] document with
  | [parser, output, logging] =>
    let dialect ← orDefault .matlab (dialectOf? convention) parser
    let (format, pretty) ← orDefault (.json, true) (outputOf? convention) output
    let (level, debug) ← orDefault (.warn, false) (loggingOf? convention) logging
    some ⟨dialect, format, pretty, level, debug⟩
  | _ => none

end Settings

end MatlabFront
