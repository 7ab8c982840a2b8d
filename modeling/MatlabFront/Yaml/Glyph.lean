import MatlabFront.Yaml.Character

/-!
# Characters and their places

In YAML the column of a character decides what it belongs to, so a text is read as a list of
characters that know their places. Whatever ends a line is one character, and all the common line
ends are the same one.
-/

namespace MatlabFront.Yaml

/-- A character of a text and its place. -/
structure Glyph where
  char : Char
  line : Nat
  /-- The number of characters in front on the same line. -/
  column : Nat
  deriving DecidableEq

/-- A text with the common line ends as newlines. -/
def withNewlines : List Char → List Char
  | [] => []
  | '\r' :: '\n' :: cs => '\n' :: withNewlines cs
  | '\r' :: cs => '\n' :: withNewlines cs
  | '\u0085' :: cs => '\n' :: withNewlines cs
  | c :: cs => c :: withNewlines cs

/-- The characters of a text from a place on. -/
def glyphsFrom (line column : Nat) : List Char → List Glyph
  | [] => []
  | c :: cs =>
    ⟨c, line, column⟩ ::
      if isBreak c then glyphsFrom (line + 1) 0 cs else glyphsFrom line (column + 1) cs

/-- The characters of a text. A mark of the byte order in front is left out, and takes a column. -/
def glyphs (cs : List Char) : List Glyph :=
  match withNewlines cs with
  | '\ufeff' :: cs => glyphsFrom 0 1 cs
  | cs => glyphsFrom 0 0 cs

/-- The characters without their places. -/
def chars (text : List Glyph) : List Char := text.map Glyph.char

/-- The first character. -/
def firstChar? (text : List Glyph) : Option Char := text.head?.map Glyph.char

/-- A text ends here, or its next character is a blank or a line end. -/
def atGap (text : List Glyph) : Bool := isGap (firstChar? text)

/-- The next characters are three of a mark, alone at the start of a line. -/
def atMarker (mark : Char) : List Glyph → Bool
  | a :: b :: c :: rest =>
    a.column == 0 && a.char == mark && b.char == mark && c.char == mark && atGap rest
  | _ => false

/-- A mark of the start or the end of a document comes next. -/
def atDocumentMarker (text : List Glyph) : Bool := atMarker '-' text || atMarker '.' text

/-- The text behind blanks. -/
def skipBlanks (text : List Glyph) : List Glyph := text.dropWhile (isBlank ·.char)

/-- The text from the end of the line on. -/
def skipLine (text : List Glyph) : List Glyph := text.dropWhile (!isBreak ·.char)

/-- The text from the end of the line on, if only blanks and a comment come before it. -/
def lineEnd? (text : List Glyph) : Option (List Glyph) :=
  let rest := skipBlanks text
  let rest := if firstChar? rest = some '#' then skipLine rest else rest
  match rest with
  | [] => some []
  | glyph :: _ => if isBreak glyph.char then some rest else none

/-- Blanks and line ends between the characters of a scalar. -/
structure Gap where
  /-- The blanks on the first line. -/
  blanks : List Char
  breaks : List Char
  deriving DecidableEq

/-- What a gap stands for: blanks for themselves, a single newline for a blank, and a newline in
front of others for nothing. -/
def Gap.folded (gap : Gap) : List Char :=
  match gap.breaks with
  | [] => gap.blanks
  | ['\n'] => [' ']
  | '\n' :: breaks => breaks
  | breaks => breaks

/-- The blanks and line ends in front of a text. -/
def gapGlyphs (text : List Glyph) : List Glyph :=
  text.takeWhile fun glyph => isGap (some glyph.char)

/-- The text behind blanks and line ends. -/
def behindGap (text : List Glyph) : List Glyph :=
  text.dropWhile fun glyph => isGap (some glyph.char)

/-- The gap in front of a text. -/
def gapHere (text : List Glyph) : Gap where
  blanks := chars ((gapGlyphs text).takeWhile (isBlank ·.char))
  breaks := (chars (gapGlyphs text)).filter isBreak

end MatlabFront.Yaml
