import MatlabFront.Yaml.Cursor
import MatlabFront.Yaml.Scalar.Lines
import MatlabFront.Yaml.Scalar.Plain
import MatlabFront.Yaml.Scalar.Quoted
import MatlabFront.Yaml.Tag

/-!
# Reading the pieces of a YAML text

Each step skips blanks and comments, ends the block collections that the next column closes, and reads
one piece. A block collection begins with its first dash, question mark or key; that something was a
key is known only at its colon, so the pieces for it are put in front of it later.
-/

namespace MatlabFront.Yaml

namespace Cursor

/-- Begins a block collection with a piece of it that comes next; nothing where none can begin. -/
def beginBlock? (cursor : Cursor) (column : Nat) (start : Piece) : Option Cursor :=
  if cursor.inFlow then some cursor
  else if cursor.fresh then some (cursor.openAt column cursor.pieces.length start)
  else none

/-- A directive or a mark of a document: it ends all block collections, and no key follows it on its
line. -/
def readMark? (cursor : Cursor) (piece : Piece) (rest : List Glyph) : Option Cursor := do
  let cursor ← (cursor.close 0).withoutCandidate?
  some { cursor.push piece rest with fresh := false }

/-- The start of a flow collection, which may be a key and may begin with one. -/
def readFlowStart? (cursor : Cursor) (glyph : Glyph) (piece : Piece) (rest : List Glyph) :
    Option Cursor := do
  let cursor ← cursor.withCandidate? glyph
  some { cursor.push piece rest with
    candidate := none, outer := cursor.candidate :: cursor.outer, fresh := true }

/-- The end of a flow collection. What may be a key is now what may be one outside. -/
def readFlowEnd? (cursor : Cursor) (piece : Piece) (rest : List Glyph) : Option Cursor := do
  let cursor ← cursor.withoutCandidate?
  let cursor := { cursor.push piece rest with fresh := false }
  match cursor.outer with
  | candidate :: outer => some { cursor with candidate := candidate, outer := outer }
  | [] => some cursor

/-- A comma. -/
def readComma? (cursor : Cursor) (rest : List Glyph) : Option Cursor := do
  let cursor ← cursor.withoutCandidate?
  some { cursor.push .comma rest with fresh := true }

/-- A dash in front of an item. -/
def readItem? (cursor : Cursor) (column : Nat) (rest : List Glyph) : Option Cursor := do
  let cursor ← cursor.beginBlock? column .blockListStart
  let cursor ← cursor.withoutCandidate?
  some { cursor.push .item rest with fresh := true }

/-- A question mark in front of a key. -/
def readKey? (cursor : Cursor) (column : Nat) (rest : List Glyph) : Option Cursor := do
  let cursor ← cursor.beginBlock? column .blockTableStart
  let cursor ← cursor.withoutCandidate?
  some { cursor.push .key rest with fresh := !cursor.inFlow }

/-- A colon in front of a value. It makes a key of what may be one; else the key has a sign of its
own. -/
def readValue? (cursor : Cursor) (column : Nat) (rest : List Glyph) : Option Cursor := do
  match cursor.candidate with
  | some candidate =>
    let cursor := cursor.insert candidate.count .key
    let cursor := cursor.openAt candidate.column candidate.count .blockTableStart
    some { cursor.push .value rest with candidate := none, fresh := false }
  | none =>
    let cursor ← cursor.beginBlock? column .blockTableStart
    some { cursor.push .value rest with fresh := !cursor.inFlow }

/-- A scalar in lines. -/
def readLines? (cursor : Cursor) (style : Style) (rest : List Glyph) : Option Cursor := do
  let cursor ← cursor.withoutCandidate?
  let (text, rest) ← lines? (style == .folded) cursor.margin rest
  some { cursor.push (.scalar style (String.ofList text)) rest with fresh := true }

/-- A piece that may be a key, or the start of one. -/
def readSimple? (cursor : Cursor) (glyph : Glyph) (found : Option (Piece × List Glyph)) :
    Option Cursor := do
  let cursor ← cursor.withCandidate? glyph
  let (piece, rest) ← found
  some { cursor.push piece rest with fresh := false }

/-- A scalar without quotes. If a line ends behind it, a key may begin. -/
def readPlain? (cursor : Cursor) (glyph : Glyph) : Option Cursor := do
  let cursor ← cursor.withCandidate? glyph
  let plain ← plain? cursor.inFlow cursor.margin cursor.rest
  let piece := .scalar .plain (String.ofList plain.text)
  some { cursor.push piece plain.rest with fresh := plain.crossed }

/-- A scalar in quotes. -/
def readQuoted? (cursor : Cursor) (glyph : Glyph) (rest : List Glyph) : Option Cursor :=
  cursor.readSimple? glyph <| (quoted? (glyph.char == '"') rest).map fun (text, rest) =>
    (.scalar .quoted (String.ofList text), rest)

/-- The piece that comes next. -/
def readPiece? (cursor : Cursor) (glyph : Glyph) (rest : List Glyph) : Option Cursor :=
  let c := glyph.char
  let flow := cursor.inFlow
  if glyph.column = 0 ∧ c = '%' then do
    let (piece, rest) ← directive? rest
    cursor.readMark? piece rest
  else if atMarker '-' cursor.rest then cursor.readMark? .documentStart (cursor.rest.drop 3)
  else if atMarker '.' cursor.rest then cursor.readMark? .documentEnd (cursor.rest.drop 3)
  else if c = '[' then cursor.readFlowStart? glyph .flowListStart rest
  else if c = '\x7b' then cursor.readFlowStart? glyph .flowTableStart rest
  else if c = ']' then cursor.readFlowEnd? .flowListEnd rest
  else if c = '\x7d' then cursor.readFlowEnd? .flowTableEnd rest
  else if c = ',' then cursor.readComma? rest
  else if c = '-' ∧ atGap rest then cursor.readItem? glyph.column rest
  else if c = '?' ∧ (flow ∨ atGap rest) then cursor.readKey? glyph.column rest
  else if c = ':' ∧ (flow ∨ atGap rest) then cursor.readValue? glyph.column rest
  else if c = '*' then
    cursor.readSimple? glyph <| (anchorName? rest).map fun (name, rest) => (.reference name, rest)
  else if c = '&' then
    cursor.readSimple? glyph <| (anchorName? rest).map fun (name, rest) => (.anchor name, rest)
  else if c = '!' then cursor.readSimple? glyph (tag? flow rest)
  else if c = '|' ∧ !flow then cursor.readLines? .literal rest
  else if c = '>' ∧ !flow then cursor.readLines? .folded rest
  else if c = '\'' ∨ c = '"' then cursor.readQuoted? glyph rest
  else if startsPlain flow cursor.rest then cursor.readPlain? glyph
  else none

/-- All pieces, the last first. There are no more of them than steps. -/
def readAll? : Nat → Cursor → Option (List Piece)
  | 0, _ => none
  | steps + 1, cursor => do
    let cursor ← cursor.skipBlanks.expire?
    match cursor.rest with
    | [] => some (← (cursor.close 0).withoutCandidate?).pieces
    | glyph :: rest => readAll? steps (← (cursor.close (glyph.column + 1)).readPiece? glyph rest)

end Cursor

/-- The pieces of a text. -/
def pieces? (cs : List Char) : Option (List Piece) :=
  if cs.all isAllowed then
    let text := glyphs cs
    ((Cursor.start text).readAll? (text.length + 1)).map List.reverse
  else none

end MatlabFront.Yaml
