/-!
# Words of a command line

The words behind the name of a program, read by what a command takes: options, at most one operand,
or the name of a command of its own. An option has a long name after two dashes and may have a letter
after one dash; letters may share a dash. A value follows its option as the next word, after an equals
sign, or right behind the letter. Behind a word of two dashes there are only operands. Every command
also takes the options that ask for help and for the version.

Nothing may be given twice. A request for help or for the version answers at once when everything in
front of it holds; a value that stands in the last word in front of the name of a command is looked at
only after that command was read.
-/

namespace MatlabFront.CommandLine

/-- An option of a command. -/
structure OptionForm where
  long : String
  letter : Option Char
  /-- The values that it accepts; absent when it takes none. -/
  accepts : Option (String → Bool)

/-- What a command takes. -/
structure CommandForm where
  title : String
  options : List OptionForm
  /-- The operands that it accepts; absent when it takes none. -/
  accepts : Option (String → Bool)
  /-- The names of the commands of its own. -/
  commands : List String

/-- Why the words are not read to their end. -/
inductive Halt where
  | misuse
  | help
  /-- The version is asked for, of the command with this title. -/
  | version (title : String)
  deriving DecidableEq

/-- A thing that was given. -/
inductive Given where
  | flag (name : String)
  | option (name value : String)
  | operand (value : String)
  deriving DecidableEq

/-- Two things of which only one may be given. -/
def Given.clashes : Given → Given → Bool
  | flag name, flag other => name == other
  | option name _, option other _ => name == other
  | operand _, operand _ => true
  | _, _ => false

/-- What the words of a command give. -/
structure Level where
  given : List Given
  /-- A thing that the next word settles, and whether it is accepted. -/
  waiting : Option (Given × Bool)
  /-- The command that is entered, and the words behind its name. -/
  entered : Option (String × List String)

namespace Level

/-- Where nothing is given yet. -/
def empty : Level := ⟨[], none, none⟩

/-- Settles a thing. -/
def settle (level : Level) (item : Given) (accepted : Bool) : Except Halt Level :=
  if level.given.any item.clashes ∨ accepted = false then .error .misuse
  else .ok { level with given := level.given ++ [item] }

/-- Settles what waits. -/
def settled (level : Level) : Except Halt Level :=
  match level.waiting with
  | none => .ok level
  | some (item, accepted) => settle { level with waiting := none } item accepted

/-- Gives a thing that is settled at once. -/
def give (level : Level) (item : Given) (accepted : Bool) : Except Halt Level := do
  (← level.settled).settle item accepted

/-- Gives a thing that the next word settles. -/
def defer (level : Level) (item : Given) (accepted : Bool) : Except Halt Level := do
  return { ← level.settled with waiting := some (item, accepted) }

/-- Answers a request at once. -/
def halt {α : Type} (level : Level) (request : Halt) : Except Halt α := do
  discard level.settled
  .error request

/-- A flag was given. -/
def hasFlag (level : Level) (name : String) : Bool := level.given.contains (.flag name)

/-- The value that was given to an option. -/
def value? (level : Level) (name : String) : Option String :=
  level.given.findSome? fun
    | .option other value => if other = name then some value else none
    | _ => none

/-- The operand that was given. -/
def operand? (level : Level) : Option String :=
  level.given.findSome? fun
    | .operand value => some value
    | _ => none

end Level

namespace CommandForm

variable (form : CommandForm)

/-- Reads the letters behind one dash. The last may be an option that still wants its value. -/
def readLetters (level : Level) : List Char → Except Halt (Level × Option OptionForm)
  | [] => .ok (level, none)
  | letter :: letters =>
    match form.options.find? (·.letter == some letter) with
    | some option =>
      match option.accepts with
      | none => do readLetters (← level.give (.flag option.long) true) letters
      | some accepts =>
        match letters with
        | [] => .ok (level, some option)
        | first :: more =>
          let value := String.ofList (if first = '=' then more else letters)
          do return (← level.give (.option option.long value) (accepts value), none)
    | none =>
      if letter = 'h' then level.halt .help
      else if letter = 'V' then level.halt (.version form.title)
      else .error .misuse

/-- Reads the name behind two dashes, with a value if an equals sign follows it. -/
def readName (level : Level) (name : String) (value : Option String) :
    Except Halt (Level × Option OptionForm) :=
  match form.options.find? (·.long == name) with
  | some option =>
    match option.accepts, value with
    | none, none => do return (← level.give (.flag name) true, none)
    | none, some _ => .error .misuse
    | some accepts, some value => do return (← level.give (.option name value) (accepts value), none)
    | some _, none => .ok (level, some option)
  | none =>
    if value.isSome then .error .misuse
    else if name = "help" then level.halt .help
    else if name = "version" then level.halt (.version form.title)
    else .error .misuse

/-- A word that begins an option: a dash with something behind it. -/
def beginsOption : List Char → Bool
  | '-' :: _ :: _ => true
  | _ => false

/-- Reads a word that begins an option. -/
def readOption (level : Level) : List Char → Except Halt (Level × Option OptionForm)
  | '-' :: '-' :: word =>
    let name := String.ofList (word.takeWhile (· != '='))
    match word.dropWhile (· != '=') with
    | [] => form.readName level name none
    | _ :: value => form.readName level name (some (String.ofList value))
  | '-' :: letters => form.readLetters level letters
  | _ => .error .misuse

/-- Gives an operand. -/
def giveOperand (level : Level) (value : String) : Except Halt Level :=
  match form.accepts with
  | none => .error .misuse
  | some accepts =>
    if level.operand?.isSome ∨ level.waiting.any (·.1.clashes (.operand value)) then .error .misuse
    else level.defer (.operand value) (accepts value)

/-- Reads words behind the word of two dashes. -/
def readOperands (level : Level) : List String → Except Halt Level
  | [] => .ok level
  | word :: words => do readOperands (← form.giveOperand level word) words

/-- Reads the words of a command, up to the name of a command of its own. -/
def read (level : Level) : List String → Except Halt Level
  | [] => .ok level
  | word :: words =>
    if word = "--" then form.readOperands level words
    else if beginsOption word.toList then
      match form.readOption level word.toList, words with
      | .error halt, _ => .error halt
      | .ok (level, none), words => read level words
      | .ok (_, some _), [] => .error .misuse
      | .ok (level, some option), value :: words =>
        if beginsOption value.toList then .error .misuse
        else
          match level.defer (.option option.long value) (option.accepts.any (· value)) with
          | .error halt => .error halt
          | .ok level => read level words
    else if form.commands.contains word then .ok { level with entered := some (word, words) }
    else
      match form.giveOperand level word with
      | .error halt => .error halt
      | .ok level => read level words

end CommandForm

end MatlabFront.CommandLine
