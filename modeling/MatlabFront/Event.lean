import MatlabFront.Text.Quoted
import MatlabFront.Token

/-!
# Events of a run

What a run reports beside its result: characters that begin no token, the dialect, commands, the
one place where input is skipped, and the functions and switches it completes. An event is shown as
a notice, a line with a severity and the name of the part that speaks.
-/

namespace MatlabFront

/-- The dialects. The lenient one reads command syntax and goes on after a malformed `if` condition;
the strict one refuses both. -/
inductive Dialect where
  | matlab
  | strict
  deriving DecidableEq

/-- The name of a dialect in messages. -/
def Dialect.name : Dialect → String
  | matlab => "Matlab"
  | strict => "Strict"

/-- The word for a dialect in settings and requests. -/
def Dialect.key : Dialect → String
  | matlab => "matlab"
  | strict => "strict"

/-- The dialect of a word. -/
def Dialect.ofKey? (key : String) : Option Dialect := [matlab, strict].find? (·.key == key)

/-- How much a notice matters, the gravest first. -/
inductive Severity where
  | error
  | warn
  | info
  | debug
  | trace
  deriving DecidableEq

namespace Severity

/-- The place of a severity in the order, the gravest first. -/
def rank : Severity → Nat
  | error => 0
  | warn => 1
  | info => 2
  | debug => 3
  | trace => 4

/-- The name of a severity in a notice. -/
def name : Severity → String
  | error => "ERROR"
  | warn => "WARN"
  | info => "INFO"
  | debug => "DEBUG"
  | trace => "TRACE"

/-- A limit lets a severity through when it is at least as grave. -/
def admits (limit severity : Severity) : Bool := decide (severity.rank ≤ limit.rank)

end Severity

/-- A line for the person who runs the program. -/
structure Notice where
  severity : Severity
  /-- The part of the program that speaks. -/
  speaker : String
  text : String
  deriving DecidableEq

/-- A notice as it is written, with the name of its severity filled up to five characters and with
the further lines of its text indented by four. -/
def Notice.line (notice : Notice) : String :=
  let name := notice.severity.name
  let text := notice.text.toList.flatMap fun c => if c = '\n' then "\n    ".toList else [c]
  "[" ++ name ++ String.ofList (List.replicate (5 - name.length) ' ') ++ " " ++ notice.speaker ++ "] "
    ++ String.ofList text ++ "\n"

/-- The notices that a limit lets through, as they are written. -/
def Notice.shown (limit : Severity) (notices : List Notice) : String :=
  String.join ((notices.filter (limit.admits ·.severity)).map line)

/-- What a run reports. -/
inductive Event where
  | unrecognized (text : String) (offset : Nat)
  | unterminatedString (offset : Nat)
  | started (tokens : Nat) (dialect : Dialect)
  | finished (statements : Nat)
  | command (name : String) (words : Nat)
  /-- Input behind an `if` condition is skipped, from a token of this line and text on. -/
  | resynchronized (line : Nat) (text : String)
  | functionOpened (name : String)
  | functionClosed (name : String) (statements : Nat) (usesNargin : Bool)
  /-- A switch became an if chain whose first condition stands in this line. -/
  | switchLowered (line : Nat)
  deriving DecidableEq

namespace Event

/-- How much an event matters. -/
def severity : Event → Severity
  | unrecognized .. | unterminatedString .. | started .. | command .. => .trace
  | finished .. | functionOpened .. | functionClosed .. | switchLowered .. => .debug
  | resynchronized .. => .warn

/-- The part of the program that reports an event. -/
def speaker : Event → String
  | unrecognized .. | unterminatedString .. => "transmat_lexer"
  | started .. | finished .. => "transmat_parser"
  | command .. | resynchronized .. | functionOpened .. => "transmat_parser::parser"
  | functionClosed .. | switchLowered .. => "transmat_parser::backpatch"

/-- The wording of an event. -/
def text : Event → String
  | unrecognized text offset =>
    "unrecognized input " ++ Text.quoted text ++ " at offset " ++ toString offset
  | unterminatedString offset => "unterminated string literal at offset " ++ toString offset
  | started tokens dialect =>
    "parsing " ++ toString tokens ++ " tokens (" ++ dialect.name ++ ")"
  | finished statements => "parsed " ++ toString statements ++ " top-level statements"
  | command name words =>
    "command syntax '" ++ name ++ "' with " ++ toString words ++ " words"
  | resynchronized line text =>
    "line " ++ toString line ++ ": unexpected '" ++ text
      ++ "' after if condition, resynchronizing"
  | functionOpened name => "parsing function '" ++ name ++ "'"
  | functionClosed name statements usesNargin =>
    "closed function '" ++ name ++ "' (" ++ toString statements ++ " statements, use_nargin="
      ++ (if usesNargin then "true" else "false") ++ ")"
  | switchLowered line => "backpatching switch subject at line " ++ toString line

/-- The notice of an event. -/
def notice (event : Event) : Notice := ⟨event.severity, event.speaker, event.text⟩

end Event

/-- The event of a token that is an error: a literal that an apostrophe opens and nothing closes, or a
text that begins no token. -/
def Token.event? (token : Token) : Option Event :=
  if token.kind = .error then
    if token.text.toList.head? = some '\'' then some (.unterminatedString token.pos.offset)
    else some (.unrecognized token.text token.pos.offset)
  else none

end MatlabFront
