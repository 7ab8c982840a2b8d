import MatlabFront.Yaml.Glyph

/-!
# Scalars in quotes

In single quotes a quote is written twice and nothing else is special. Double quotes know escapes,
one of which joins two lines. Blanks around line ends are dropped in both.
-/

namespace MatlabFront.Yaml

/-- The character of a one-letter escape in double quotes. -/
def letterEscape? (c : Char) : Option Char :=
  if c = '0' then some '\x00'
  else if c = 'a' then some '\x07'
  else if c = 'b' then some '\x08'
  else if c = 't' ∨ c = '\t' then some '\t'
  else if c = 'n' then some '\n'
  else if c = 'v' then some '\x0b'
  else if c = 'f' then some '\x0c'
  else if c = 'r' then some '\r'
  else if c = 'e' then some '\x1b'
  else if c = ' ' then some ' '
  else if c = '"' then some '"'
  else if c = '/' then some '/'
  else if c = '\\' then some '\\'
  else if c = 'N' then some '\u0085'
  else if c = '_' then some '\u00a0'
  else if c = 'L' then some '\u2028'
  else if c = 'P' then some '\u2029'
  else none

/-- The number of digits of an escape by code. -/
def codeLength? (c : Char) : Option Nat :=
  if c = 'x' then some 2 else if c = 'u' then some 4 else if c = 'U' then some 8 else none

/-- The character that some hexadecimal digits name. -/
def codeChar? (digits : List Char) : Option Char :=
  let code := hexNumber digits
  if digits.all isHexDigit && decide (code.isValidChar) then some (Char.ofNat code) else none

/-- The character of an escape that begins with a letter behind the backslash, and the text behind
it. -/
def escape? (letter : Char) (text : List Glyph) : Option (Char × List Glyph) :=
  match codeLength? letter with
  | some length =>
    if text.length < length then none
    else (codeChar? (chars (text.take length))).map (·, text.drop length)
  | none => (letterEscape? letter).map (·, text)

/-- What ends a run of characters in quotes. -/
inductive RunEnd where
  | quote
  | gap
  | escapedBreak
  deriving DecidableEq

/-- A run of characters in quotes: the characters, what ends them, and the text behind. A gap is not
part of the run, a quote or an escaped line end is. -/
def quotedRun? (double : Bool) : Nat → List Glyph → Option (List Char × RunEnd × List Glyph)
  | 0, _ => none
  | _, [] => some ([], .gap, [])
  | steps + 1, glyph :: rest =>
    let c := glyph.char
    if isGap (some c) then some ([], .gap, glyph :: rest)
    else if double && c == '"' then some ([], .quote, rest)
    else if double && c == '\\' then
      match rest with
      | [] => none
      | letter :: rest =>
        if isBreak letter.char then some ([], .escapedBreak, rest)
        else do
          let (value, rest) ← escape? letter.char rest
          let (run, stop, rest) ← quotedRun? double steps rest
          some (value :: run, stop, rest)
    else if !double && c == '\'' then
      match rest with
      | next :: more =>
        if next.char = '\'' then do
          let (run, stop, rest) ← quotedRun? double steps more
          some ('\'' :: run, stop, rest)
        else some ([], .quote, rest)
      | [] => some ([], .quote, [])
    else do
      let (run, stop, rest) ← quotedRun? double steps rest
      some (c :: run, stop, rest)

/-- The characters of a scalar behind its opening quote, over as many gaps as there are steps, and the
text behind the closing one. An escaped line end stands for nothing, and those after it for
themselves. -/
def quotedIn? (double : Bool) : Nat → List Glyph → Option (List Char × List Glyph)
  | 0, _ => none
  | steps + 1, text =>
    if atDocumentMarker text then none
    else do
      let (run, stop, rest) ← quotedRun? double (text.length + 1) text
      let gap := gapHere rest
      match stop with
      | .quote => some (run, rest)
      | .gap =>
        if rest.isEmpty then none
        else
          let (more, rest) ← quotedIn? double steps (behindGap rest)
          some (run ++ gap.folded ++ more, rest)
      | .escapedBreak =>
        let (more, rest) ← quotedIn? double steps (behindGap rest)
        some (run ++ gap.breaks ++ more, rest)

/-- The value of a scalar behind its opening quote, and the text behind the closing one. -/
def quoted? (double : Bool) (text : List Glyph) : Option (List Char × List Glyph) :=
  quotedIn? double (text.length + 1) text

end MatlabFront.Yaml
