import MatlabFront.Toml.Value

/-!
# Reading TOML

A TOML text is a list of headings and assignments. They build one table: an assignment goes into the
table of the last heading, a key with dots goes into inner tables, and nothing may be defined twice.
-/

namespace MatlabFront.Toml

/-- How a table came to be, which decides what may still be added to it. -/
inductive Origin where
  /-- As a part of the path of a heading. -/
  | implied
  /-- By its own heading. -/
  | heading
  /-- As a part of a key with dots. -/
  | dotted
  deriving DecidableEq

/-- A table that is being built. -/
inductive Node where
  | value (document : Document)
  | table (origin : Origin) (entries : List (String × Node))
  /-- Tables under headings in double brackets, the latest first. -/
  | tables (latest : List (String × Node)) (earlier : List Document)

mutual

/-- The document of a node. -/
def Node.document : Node → Document
  | .value document => document
  | .table _ entries => .table (documents entries)
  | .tables latest earlier => .list (earlier.reverse ++ [.table (documents latest)])

/-- The documents of some entries. -/
def documents : List (String × Node) → List (Option String × Document)
  | [] => []
  | (name, node) :: entries => (some name, node.document) :: documents entries

end

/-- Puts a node in the place of the entry of its name, or at the end. -/
def put (name : String) (node : Node) : List (String × Node) → List (String × Node)
  | [] => [(name, node)]
  | (other, old) :: entries =>
    if other = name then (name, node) :: entries else (other, old) :: put name node entries

/-- Adds a value under a key with dots, if the table takes values from keys. Keys with dots enter
tables without a heading of their own, and the latest of the tables under a heading in double
brackets; but a value is taken only by a table that keys with dots have made. -/
def assign (document : Document) (takes : Bool) :
    List String → List (String × Node) → Option (List (String × Node))
  | [], _ => none
  | [name], entries =>
    match takes, entries.lookup name with
    | true, none => some (put name (.value document) entries)
    | _, _ => none
  | name :: path, entries =>
    match entries.lookup name with
    | none => do
      let inner ← assign document true path []
      some (put name (.table .dotted inner) entries)
    | some (.table .heading _) | some (.value _) => none
    | some (.table origin inner) => do
      let inner ← assign document (origin == .dotted) path inner
      some (put name (.table origin inner) entries)
    | some (.tables latest earlier) => do
      let latest ← assign document false path latest
      some (put name (.tables latest earlier) entries)

/-- Changes the table of a heading, which is there. -/
def change (step : List (String × Node) → Option (List (String × Node))) :
    List String → List (String × Node) → Option (List (String × Node))
  | [], entries => step entries
  | name :: path, entries =>
    match entries.lookup name with
    | some (.table origin inner) => do
      let inner ← change step path inner
      some (put name (.table origin inner) entries)
    | some (.tables latest earlier) => do
      let latest ← change step path latest
      some (put name (.tables latest earlier) entries)
    | _ => none

/-- Opens the table of a heading, or a further one of a heading in double brackets. -/
def openTable (double : Bool) : List String → List (String × Node) → Option (List (String × Node))
  | [], _ => none
  | [name], entries =>
    match double, entries.lookup name with
    | false, none => some (put name (.table .heading []) entries)
    | false, some (.table .implied inner) => some (put name (.table .heading inner) entries)
    | true, none => some (put name (.tables [] []) entries)
    | true, some (.tables latest earlier) =>
      some (put name (.tables [] (.table (documents latest) :: earlier)) entries)
    | _, _ => none
  | name :: path, entries =>
    match entries.lookup name with
    | none => do
      let inner ← openTable double path []
      some (put name (.table .implied inner) entries)
    | some (.table origin inner) => do
      let inner ← openTable double path inner
      some (put name (.table origin inner) entries)
    | some (.tables latest earlier) => do
      let latest ← openTable double path latest
      some (put name (.tables latest earlier) entries)
    | some (.value _) => none

/-- A blank inside a line. -/
def isBlank (c : Char) : Bool := c == ' ' || c == '\t'

/-- The text behind blanks. -/
def skipBlanks (cs : List Char) : List Char := cs.dropWhile isBlank

/-- A character that may stand in a comment or a text. -/
def isShown (c : Char) : Bool := c == '\t' || (0x20 ≤ c.toNat && c.toNat != 0x7f)

/-- The text behind a newline. -/
def behindNewline? : List Char → Option (List Char)
  | '\n' :: cs => some cs
  | '\r' :: '\n' :: cs => some cs
  | _ => none

/-- The text behind a comment, if one comes next. -/
def skipComment (cs : List Char) : List Char :=
  match cs with
  | '#' :: rest => rest.dropWhile isShown
  | _ => cs

/-- The text behind the end of a line, with blanks and a comment before it. -/
def behindLine? (cs : List Char) : Option (List Char) :=
  match skipComment (skipBlanks cs) with
  | [] => some []
  | rest => behindNewline? rest

/-- The text behind blanks, comments and newlines. -/
def skipLines (fuel : Nat) (cs : List Char) : List Char :=
  match fuel with
  | 0 => cs
  | fuel + 1 =>
    let rest := skipComment (skipBlanks cs)
    match behindNewline? rest with
    | some rest => skipLines fuel rest
    | none => rest

/-- A character of a key without quotes. -/
def isBareKey (c : Char) : Bool := c.isAlphanum || c == '_' || c == '-'

/-- The character that some hexadecimal digits name. -/
def codeChar? (digits : List Char) : Option Char :=
  let code := inBase 16 digits
  if digits.all isHexDigit && decide (code.isValidChar) then some (Char.ofNat code) else none

/-- The character of an escape behind its backslash, and the text behind it. -/
def escape? : List Char → Option (Char × List Char)
  | 'b' :: cs => some ('\x08', cs)
  | 't' :: cs => some ('\t', cs)
  | 'n' :: cs => some ('\n', cs)
  | 'f' :: cs => some ('\x0c', cs)
  | 'r' :: cs => some ('\r', cs)
  | '"' :: cs => some ('"', cs)
  | '\\' :: cs => some ('\\', cs)
  | 'u' :: cs =>
    if cs.length < 4 then none else (codeChar? (cs.take 4)).map (·, cs.drop 4)
  | 'U' :: cs =>
    if cs.length < 8 then none else (codeChar? (cs.take 8)).map (·, cs.drop 8)
  | _ => none

/-- The characters of a text on one line behind its opening quote, and the text behind the closing
one. Only double quotes know escapes. -/
def lineText? (fuel : Nat) (quote : Char) (cs : List Char) : Option (List Char × List Char) :=
  match fuel, cs with
  | 0, _ | _, [] => none
  | fuel + 1, c :: cs =>
    if c = quote then some ([], cs)
    else if c = '\\' ∧ quote = '"' then do
      let (char, rest) ← escape? cs
      let (value, rest) ← lineText? fuel quote rest
      some (char :: value, rest)
    else if isShown c then do
      let (value, rest) ← lineText? fuel quote cs
      some (c :: value, rest)
    else none

/-- The text behind blanks and newlines. -/
def skipGap : List Char → List Char
  | [] => []
  | '\r' :: '\n' :: cs => skipGap cs
  | c :: cs => if isBlank c ∨ c = '\n' then skipGap cs else c :: cs

/-- The text behind a backslash at the end of a line: all blanks and newlines that follow. -/
def behindLineEnd? (cs : List Char) : Option (List Char) :=
  (behindNewline? (skipBlanks cs)).map skipGap

/-- The characters of a text on several lines behind its opening quotes, and the text behind the
closing three. One or two quotes directly in front of these belong to the text. -/
def linesText? (fuel : Nat) (quote : Char) (cs : List Char) : Option (List Char × List Char) :=
  match fuel, cs with
  | 0, _ | _, [] => none
  | fuel + 1, c :: cs =>
    if c = quote then
      let run := 1 + (cs.takeWhile (· == quote)).length
      if run < 3 then do
        let (value, rest) ← linesText? fuel quote cs
        some (c :: value, rest)
      else if run ≤ 5 then some (List.replicate (run - 3) quote, cs.drop (run - 1))
      else none
    else if c = '\\' ∧ quote = '"' then
      match behindLineEnd? cs with
      | some rest => linesText? fuel quote rest
      | none => do
        let (char, rest) ← escape? cs
        let (value, rest) ← linesText? fuel quote rest
        some (char :: value, rest)
    else
      match behindNewline? (c :: cs) with
      | some rest => do
        let (value, rest) ← linesText? fuel quote rest
        some ('\n' :: value, rest)
      | none =>
        if isShown c then do
          let (value, rest) ← linesText? fuel quote cs
          some (c :: value, rest)
        else none

/-- One part of a key. -/
def keyPart? : List Char → Option (String × List Char)
  | '"' :: cs => (lineText? (cs.length + 1) '"' cs).map fun (name, rest) => (String.ofList name, rest)
  | '\'' :: cs =>
    (lineText? (cs.length + 1) '\'' cs).map fun (name, rest) => (String.ofList name, rest)
  | cs =>
    match cs.takeWhile isBareKey with
    | [] => none
    | name => some (String.ofList name, cs.dropWhile isBareKey)

/-- The most parts that a key may have, and the most lists and tables that may be nested. -/
def maxDepth : Nat := 79

/-- A key of at most some parts, with dots in between and blanks around each. -/
def keyOf? (most : Nat) (cs : List Char) : Option (List String × List Char) :=
  match most with
  | 0 => none
  | most + 1 => do
    let (part, rest) ← keyPart? (skipBlanks cs)
    match skipBlanks rest with
    | '.' :: rest =>
      let (parts, rest) ← keyOf? most rest
      some (part :: parts, rest)
    | rest => some ([part], rest)

/-- A key. -/
def key? (cs : List Char) : Option (List String × List Char) := keyOf? maxDepth cs

/-- A character of a value without quotes. -/
def isBareValue (c : Char) : Bool := c.isAlphanum || "+-_.:".toList.contains c

/-- A value without quotes. A blank stands inside only between a date and a time. -/
def bareValue? (cs : List Char) : Option (Document × List Char) :=
  let front := cs.takeWhile isBareValue
  let rest := cs.dropWhile isBareValue
  let whole := match rest with
    | ' ' :: more =>
      if behindDate? front = some [] ∧ more.head?.any Char.isDigit then
        (front ++ ' ' :: more.takeWhile isBareValue, more.dropWhile isBareValue)
      else (front, rest)
    | _ => (front, rest)
  (bareDocument? whole.1).map (·, whole.2)

mutual

/-- A value that holds lists and tables down to some depth, and the text behind it. -/
def value? (fuel depth : Nat) (cs : List Char) : Option (Document × List Char) :=
  match fuel with
  | 0 => none
  | fuel + 1 =>
    match cs with
    | '"' :: '"' :: '"' :: rest => do
      let (text, rest) ← linesText? (rest.length + 1) '"' ((behindNewline? rest).getD rest)
      some (.word (String.ofList text), rest)
    | '\'' :: '\'' :: '\'' :: rest => do
      let (text, rest) ← linesText? (rest.length + 1) '\'' ((behindNewline? rest).getD rest)
      some (.word (String.ofList text), rest)
    | '"' :: rest => do
      let (text, rest) ← lineText? (rest.length + 1) '"' rest
      some (.word (String.ofList text), rest)
    | '\'' :: rest => do
      let (text, rest) ← lineText? (rest.length + 1) '\'' rest
      some (.word (String.ofList text), rest)
    | '[' :: rest =>
      match depth with
      | 0 => none
      | depth + 1 => (items? fuel depth rest).map fun (items, rest) => (.list items, rest)
    | '\x7b' :: rest =>
      match depth, skipBlanks rest with
      | 0, _ => none
      | _, '\x7d' :: rest => some (.table [], rest)
      | depth + 1, rest =>
        (entries? fuel depth [] rest).map fun (entries, rest) => (.table (documents entries), rest)
    | cs => bareValue? cs

/-- The items of a list behind its opening bracket, and the text behind the closing one. -/
def items? (fuel depth : Nat) (cs : List Char) : Option (List Document × List Char) :=
  match fuel with
  | 0 => none
  | fuel + 1 =>
    match skipLines cs.length cs with
    | ']' :: rest => some ([], rest)
    | cs => do
      let (item, rest) ← value? fuel depth cs
      match skipLines rest.length rest with
      | ']' :: rest => some ([item], rest)
      | ',' :: rest =>
        let (items, rest) ← items? fuel depth rest
        some (item :: items, rest)
      | _ => none

/-- The entries of a table in braces, at least one, and the text behind the closing brace. -/
def entries? (fuel depth : Nat) (entries : List (String × Node)) (cs : List Char) :
    Option (List (String × Node) × List Char) :=
  match fuel with
  | 0 => none
  | fuel + 1 => do
    let (path, rest) ← key? cs
    match rest with
    | '=' :: rest =>
      let (document, rest) ← value? fuel depth (skipBlanks rest)
      let entries ← assign document true path entries
      match skipBlanks rest with
      | '\x7d' :: rest => some (entries, rest)
      | ',' :: rest => entries? fuel depth entries rest
      | _ => none
    | _ => none

end

/-- A line of a TOML text, without comments and empty lines. -/
inductive Line where
  | heading (double : Bool) (path : List String)
  | assignment (path : List String) (value : Document)

/-- The line that a text begins with, and the text behind it. -/
def line? (cs : List Char) : Option (Line × List Char) :=
  match cs with
  | '[' :: '[' :: rest => do
    let (path, rest) ← key? rest
    match rest with
    | ']' :: ']' :: rest => some (.heading true path, ← behindLine? rest)
    | _ => none
  | '[' :: rest => do
    let (path, rest) ← key? rest
    match rest with
    | ']' :: rest => some (.heading false path, ← behindLine? rest)
    | _ => none
  | cs => do
    let (path, rest) ← key? cs
    match rest with
    | '=' :: rest =>
      let rest := skipBlanks rest
      let (document, rest) ← value? (2 * rest.length + 2) maxDepth rest
      some (.assignment path document, ← behindLine? rest)
    | _ => none

/-- Reads the lines of a text into the table of its last heading. -/
def build (fuel : Nat) (heading : List String) (entries : List (String × Node)) (cs : List Char) :
    Option (List (String × Node)) :=
  match fuel with
  | 0 => none
  | fuel + 1 =>
    match skipLines (cs.length + 1) cs with
    | [] => some entries
    | cs => do
      let (line, rest) ← line? cs
      match line with
      | .heading double path => build fuel path (← openTable double path entries) rest
      | .assignment path document =>
        build fuel heading (← change (assign document true path) heading entries) rest

/-- The table that a text writes. -/
def ofText? (text : String) : Option Document :=
  let cs := match text.toList with
    | '\ufeff' :: cs => cs
    | cs => cs
  (build (cs.length + 1) [] [] cs).map fun entries => .table (documents entries)

end MatlabFront.Toml
