import MatlabFront.Decimal
import MatlabFront.Yaml.Glyph
import MatlabFront.Yaml.Piece

/-!
# Tags and directives

A tag is an address in angles, or a name behind a handle. Directives in front of a document name the
version of the language and say what handles stand for. An address writes some characters as
themselves and the others as the codes of their bytes.
-/

namespace MatlabFront.Yaml

/-- A byte that is written by its code. -/
def byte? : List Glyph → Option (Nat × List Glyph)
  | sign :: high :: low :: rest =>
    if sign.char == '%' && isHexDigit high.char && isHexDigit low.char then
      some (hexNumber [high.char, low.char], rest)
    else none
  | _ => none

/-- The number of bytes that follow the first byte of a character. -/
def following? (first : Nat) : Option Nat :=
  if first < 0x80 then some 0
  else if first < 0xc0 then none
  else if first < 0xe0 then some 1
  else if first < 0xf0 then some 2
  else if first < 0xf8 then some 3
  else none

/-- The bits of a first byte that belong to the character, given how many bytes follow it. -/
def leadingBits (first following : Nat) : Nat :=
  if following = 0 then first
  else if following = 1 then first - 0xc0
  else if following = 2 then first - 0xe0
  else first - 0xf0

/-- The least character that needs a number of bytes behind its first. -/
def leastCode (following : Nat) : Nat :=
  if following = 0 then 0
  else if following = 1 then 0x80
  else if following = 2 then 0x800
  else 0x10000

/-- The number that some bytes behind the first one bring a character to. -/
def followingBits? : Nat → Nat → List Glyph → Option (Nat × List Glyph)
  | 0, code, text => some (code, text)
  | count + 1, code, text => do
    let (byte, rest) ← byte? text
    if 0x80 ≤ byte ∧ byte < 0xc0 then followingBits? count (code * 64 + (byte - 0x80)) rest
    else none

/-- A character that is written by the codes of its bytes. Bytes in the form of a character may still
be those of none. -/
def codedChar? (text : List Glyph) : Option (Option Char × List Glyph) := do
  let (first, rest) ← byte? text
  let following ← following? first
  let (code, rest) ← followingBits? following (leadingBits first following) rest
  let valid := decide (leastCode following ≤ code) && decide code.isValidChar
  some (if valid then some (Char.ofNat code) else none, rest)

/-- The characters of an address, and the text behind it. -/
def address? (marked : Bool) : Nat → List Glyph → Option (List (Option Char) × List Glyph)
  | 0, _ => none
  | _, [] => some ([], [])
  | steps + 1, glyph :: rest =>
    if glyph.char = '%' then do
      let (c, rest) ← codedChar? (glyph :: rest)
      let (more, rest) ← address? marked steps rest
      some (c :: more, rest)
    else if isAddressChar marked glyph.char then do
      let (more, rest) ← address? marked steps rest
      some (some glyph.char :: more, rest)
    else some ([], glyph :: rest)

/-- The text of an address. The character zero ends it. -/
def addressText? (address : List (Option Char)) : Option String :=
  ((address.takeWhile (· != some '\x00')).mapM id).map String.ofList

/-- An address that is not empty, and the text behind it. -/
def wholeAddress? (marked : Bool) (text : List Glyph) : Option (Option String × List Glyph) := do
  let (address, rest) ← address? marked (text.length + 1) text
  if address.isEmpty then none else some (addressText? address, rest)

/-- A name, and the text behind it. -/
def name (text : List Glyph) : String × List Glyph :=
  (String.ofList (chars (text.takeWhile (isNameChar ·.char))), text.dropWhile (isNameChar ·.char))

/-- A handle, behind its exclamation mark. With a name it needs another mark. -/
def handle? (text : List Glyph) : Option (String × List Glyph) :=
  let (name, rest) := name text
  if firstChar? rest = some '!' then some ("!" ++ name ++ "!", rest.tail)
  else if name.isEmpty then some ("!", rest)
  else none

/-- A tag behind its exclamation mark, without regard to what follows it. The mark alone is a tag,
too. -/
def tagBody? (text : List Glyph) : Option (Piece × List Glyph) := do
  if firstChar? text = some '<' then
    let (address, rest) ← wholeAddress? true text.tail
    if firstChar? rest = some '>' then some (.tag "" address, rest.tail) else none
  else
    match handle? text with
    | some (handle, rest) =>
      if handle = "!" then
        let (address, rest) ← address? false (rest.length + 1) rest
        match addressText? address with
        | some "" => some (.tag "" (some "!"), rest)
        | name => some (.tag "!" name, rest)
      else
        let (name, rest) ← wholeAddress? false rest
        some (.tag handle name, rest)
    | none =>
      let (name, rest) ← wholeAddress? false text
      some (.tag "!" name, rest)

/-- A tag behind its exclamation mark. A gap has to follow it, or a comma in flow style. -/
def tag? (flow : Bool) (text : List Glyph) : Option (Piece × List Glyph) := do
  let (tag, rest) ← tagBody? text
  if atGap rest || (flow && firstChar? rest == some ',') then some (tag, rest) else none

/-- A name behind the sign of an anchor or of a reference to one. -/
def anchorName? (text : List Glyph) : Option (String × List Glyph) :=
  let (name, rest) := name text
  if name.isEmpty then none
  else if atGap rest || (firstChar? rest).any ("?:,]%@\x60\x7d".toList.contains ·) then
    some (name, rest)
  else none

/-- A number of a version, at most nine digits long. -/
def versionNumber? (text : List Glyph) : Option (Nat × List Glyph) :=
  let digits := chars (text.takeWhile (·.char.isDigit))
  if digits.isEmpty || digits.length > 9 then none
  else some (Decimal.natural digits, text.dropWhile (·.char.isDigit))

/-- A directive behind its percent sign, without regard to what follows it on its line. -/
def directiveBody? (text : List Glyph) : Option (Piece × List Glyph) := do
  let (word, rest) := name text
  if !atGap rest then none
  else if word = "YAML" then
    let (major, rest) ← versionNumber? (skipBlanks rest)
    if firstChar? rest = some '.' then
      let (minor, rest) ← versionNumber? rest.tail
      some (.versionDirective major minor, rest)
    else none
  else if word = "TAG" then
    match skipBlanks rest with
    | mark :: rest =>
      if mark.char = '!' then
        let (handle, rest) ← handle? rest
        if (firstChar? rest).any isBlank then
          let (address, rest) ← wholeAddress? true (skipBlanks rest)
          if atGap rest then some (.tagDirective handle address, rest) else none
        else none
      else none
    | [] => none
  else none

/-- A directive behind its percent sign, up to the end of its line, and the text behind that. -/
def directive? (text : List Glyph) : Option (Piece × List Glyph) := do
  let (directive, rest) ← directiveBody? text
  let rest ← lineEnd? rest
  some (directive, rest.tail)

end MatlabFront.Yaml
