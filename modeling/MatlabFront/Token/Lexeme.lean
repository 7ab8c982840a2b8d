import MatlabFront.Token
import MatlabFront.Token.Literal

/-!
# Lexemes

A lexeme is the longest piece at the front of a text that reads as one blank run, comment,
continuation, keyword, name, number, double-quoted literal, operator or bracket. Since a lexeme
always holds the first character, it is given by its kind and by how many characters follow the
first one. What an apostrophe stands for depends on the tokens before it and is left open here.
-/

namespace MatlabFront

/-- The front piece of a text: its kind, if it makes a token, and its length without its first
character. -/
structure Lexeme where
  kind : Option Kind
  extra : Nat
  deriving DecidableEq

namespace Lexeme

/-- Blanks separate tokens and make none: space, tab, form feed and carriage return. -/
def isBlank (c : Char) : Bool := c == ' ' || c == '\t' || c == '\x0c' || c == '\r'

/-- A name begins with an ASCII letter or an underscore. -/
def startsName (c : Char) : Bool := c.isAlpha || c == '_'

/-- A name goes on with ASCII letters, digits and underscores. -/
def continuesName (c : Char) : Bool := c.isAlphanum || c == '_'

/-- The number of characters at the front of a text that satisfy a test. -/
def run (test : Char → Bool) (cs : List Char) : Nat := (cs.takeWhile test).length

/-- The keywords, each with its kind. All words that close a block are one kind. -/
def keywords : List (List Char × Kind) :=
  [(['f', 'u', 'n', 'c', 't', 'i', 'o', 'n'], .functionKeyword),
    (['i', 'f'], .ifKeyword),
    (['e', 'l', 's', 'e', 'i', 'f'], .elseIfKeyword),
    (['e', 'l', 's', 'e'], .elseKeyword),
    (['f', 'o', 'r'], .forKeyword),
    (['w', 'h', 'i', 'l', 'e'], .whileKeyword),
    (['s', 'w', 'i', 't', 'c', 'h'], .switchKeyword),
    (['c', 'a', 's', 'e'], .caseKeyword),
    (['o', 't', 'h', 'e', 'r', 'w', 'i', 's', 'e'], .otherwiseKeyword),
    (['t', 'r', 'y'], .tryKeyword),
    (['c', 'a', 't', 'c', 'h'], .catchKeyword),
    (['b', 'r', 'e', 'a', 'k'], .breakKeyword),
    (['c', 'o', 'n', 't', 'i', 'n', 'u', 'e'], .continueKeyword),
    (['r', 'e', 't', 'u', 'r', 'n'], .returnKeyword),
    (['g', 'l', 'o', 'b', 'a', 'l'], .globalKeyword),
    (['e', 'n', 'd'], .endKeyword),
    (['e', 'n', 'd', 'i', 'f'], .endKeyword),
    (['e', 'n', 'd', 'w', 'h', 'i', 'l', 'e'], .endKeyword),
    (['e', 'n', 'd', 'f', 'o', 'r'], .endKeyword),
    (['e', 'n', 'd', 'f', 'u', 'n', 'c', 't', 'i', 'o', 'n'], .endKeyword),
    (['e', 'n', 'd', 's', 'w', 'i', 't', 'c', 'h'], .endKeyword),
    (['e', 'n', 'd', '_', 't', 'r', 'y', '_', 'c', 'a', 't', 'c', 'h'], .endKeyword)]

/-- The kind of a word: a keyword, or else a name. -/
def wordKind (word : List Char) : Kind :=
  match keywords.find? (·.1 == word) with
  | some (_, kind) => kind
  | none => .ident

/-- The operator that a dot makes with the character after it. -/
def dottedOperator? (c : Char) : Option Kind :=
  if c = '*' then some .dotStar
  else if c = '/' then some .dotSlash
  else if c = '\\' then some .dotBackslash
  else if c = '^' then some .dotCaret
  else if c = '\'' then some .dotTranspose
  else none

/-- The text behind a number's point begins with a character that makes an operator with it. -/
def leavesPoint : List Char → Bool
  | [] => false
  | c :: _ => (dottedOperator? c).isSome

/-- The length of an exponent at the front of a text: a letter, an optional sign and at least one
digit; zero when there is none. -/
def exponentRun : List Char → Nat
  | [] => 0
  | e :: cs =>
    if e = 'e' ∨ e = 'E' then
      match cs with
      | [] => 0
      | sign :: rest =>
        if sign = '+' ∨ sign = '-' then
          match run Char.isDigit rest with
          | 0 => 0
          | digits + 1 => digits + 3
        else
          match run Char.isDigit cs with
          | 0 => 0
          | digits + 1 => digits + 2
    else 0

/-- The length of an imaginary suffix at the front of a text. -/
def imaginaryRun : List Char → Nat
  | [] => 0
  | c :: _ => if c = 'i' ∨ c = 'j' then 1 else 0

/-- The length of an exponent and an imaginary suffix, each optional. -/
def scaleRun (cs : List Char) : Nat :=
  let exponent := exponentRun cs
  exponent + imaginaryRun (cs.drop exponent)

/-- The length of the digits behind a point, with exponent and suffix. -/
def fractionRun (cs : List Char) : Nat :=
  let digits := run Char.isDigit cs
  digits + scaleRun (cs.drop digits)

/-- The length of what follows the first digit of a number. A point at its end belongs to the
number unless it makes an operator with the character behind it. -/
def numberRun (cs : List Char) : Nat :=
  let digits := run Char.isDigit cs
  match cs.drop digits with
  | '.' :: rest =>
    match fractionRun rest with
    | 0 => if leavesPoint rest then digits else digits + 1
    | fraction => digits + 1 + fraction
  | other => digits + scaleRun other

/-- A continuation takes its line to the end and the newline with it. -/
def continuationRun (cs : List Char) : Nat :=
  let line := run (· != '\n') cs
  match cs.drop line with
  | [] => line
  | _ :: _ => line + 1

/-- The lexeme that begins with a dot. -/
def readDot : List Char → Lexeme
  | [] => ⟨some .dot, 0⟩
  | c :: cs =>
    if c.isDigit then ⟨some .number, 1 + fractionRun cs⟩
    else match dottedOperator? c with
      | some kind => ⟨some kind, 1⟩
      | none =>
        match cs with
        | d :: rest => if c = '.' ∧ d = '.' then ⟨none, 2 + continuationRun rest⟩ else ⟨some .dot, 0⟩
        | [] => ⟨some .dot, 0⟩

/-- The lexeme of a character that may make a longer operator with the next one. -/
def readPair (cs : List Char) (second : Char) (both single : Kind) : Lexeme :=
  match cs with
  | [] => ⟨some single, 0⟩
  | c :: _ => if c = second then ⟨some both, 1⟩ else ⟨some single, 0⟩

/-- The kind of a character that is a token of its own. -/
def singleKind? (c : Char) : Option Kind :=
  if c = '+' then some .plus
  else if c = '-' then some .minus
  else if c = '*' then some .star
  else if c = '/' then some .slash
  else if c = '\\' then some .backslash
  else if c = '^' then some .caret
  else if c = '@' then some .atSign
  else if c = ';' then some .semicolon
  else if c = ',' then some .comma
  else if c = '\n' then some .newline
  else if c = ':' then some .colon
  else if c = '(' then some .leftParen
  else if c = ')' then some .rightParen
  else if c = '[' then some .leftBracket
  else if c = ']' then some .rightBracket
  else if c = '{' then some .leftBrace
  else if c = '}' then some .rightBrace
  else if c = '\'' then some .quote
  else none

/-- The lexeme at the front of a text, given as its first character and the characters behind it. A
literal that does not close, and a character that begins nothing, are errors. -/
def read (c : Char) (cs : List Char) : Lexeme :=
  if isBlank c then ⟨none, run isBlank cs⟩
  else if c = '%' ∨ c = '#' then ⟨none, run (· != '\n') cs⟩
  else if startsName c then
    let extra := run continuesName cs
    ⟨some (wordKind (c :: cs.take extra)), extra⟩
  else if c.isDigit then ⟨some .number, numberRun cs⟩
  else if c = '"' then
    let reach := Literal.closingRun '"' cs
    ⟨some (if reach.closed then .string else .error), reach.length⟩
  else if c = '.' then readDot cs
  else if c = '&' then readPair cs '&' .andAnd .and
  else if c = '|' then readPair cs '|' .orOr .or
  else if c = '=' then readPair cs '=' .equal .assign
  else if c = '<' then readPair cs '=' .lessEqual .less
  else if c = '>' then readPair cs '=' .greaterEqual .greater
  else if c = '~' ∨ c = '!' then readPair cs '=' .notEqual .tilde
  else match singleKind? c with
    | some kind => ⟨some kind, 0⟩
    | none => ⟨some .error, 0⟩

end Lexeme

end MatlabFront
