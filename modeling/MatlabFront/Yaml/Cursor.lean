import MatlabFront.Yaml.Glyph
import MatlabFront.Yaml.Piece

/-!
# Where a YAML text is read

Between two pieces the reader knows the rest of the text, the columns of the open block collections,
and the piece that turns out to be a key if a colon follows it on its line. Each open flow collection
has such a piece of its own, and so has what is outside all of them.
-/

namespace MatlabFront.Yaml

/-- A piece that may turn out to be a key. -/
structure Candidate where
  /-- The number of pieces in front of it. -/
  count : Nat
  line : Nat
  column : Nat
  /-- It has to be a key, because it stands where the entries of a block table begin. -/
  required : Bool

/-- The state of the reader between two pieces. -/
structure Cursor where
  rest : List Glyph
  /-- The columns of the open block collections, the innermost first. -/
  columns : List Nat
  /-- What may turn out to be a key. -/
  candidate : Option Candidate
  /-- The same outside the open flow collections, the innermost first. -/
  outer : List (Option Candidate)
  /-- A key may begin here, or a collection in block style. -/
  fresh : Bool
  /-- The pieces that have been read, the last first. -/
  pieces : List Piece

namespace Cursor

/-- The start of a text. -/
def start (text : List Glyph) : Cursor := ⟨text, [], none, [], true, []⟩

/-- Inside a flow collection. -/
def inFlow (cursor : Cursor) : Bool := !cursor.outer.isEmpty

/-- The least column of what belongs to the innermost block collection. -/
def margin (cursor : Cursor) : Nat := cursor.columns.head?.elim 0 (· + 1)

/-- Adds a piece, and goes on behind it. -/
def push (cursor : Cursor) (piece : Piece) (rest : List Glyph) : Cursor :=
  { cursor with pieces := piece :: cursor.pieces, rest := rest }

/-- Adds a piece behind some number of pieces. -/
def insert (cursor : Cursor) (count : Nat) (piece : Piece) : Cursor :=
  let later := cursor.pieces.length - count
  { cursor with pieces := cursor.pieces.take later ++ piece :: cursor.pieces.drop later }

/-- The text behind blanks, comments and line ends, and whether a line ended. In block style a line is
not indented by tabs. -/
def behindBlanks (flow fresh : Bool) : List Glyph → List Glyph × Bool
  | [] => ([], fresh)
  | glyph :: rest =>
    if glyph.char = ' ' ∨ (glyph.char = '\t' ∧ (flow ∨ !fresh)) then behindBlanks flow fresh rest
    else if isBreak glyph.char then behindBlanks flow (fresh || !flow) rest
    else if glyph.char = '#' then behindComment flow fresh rest
    else (glyph :: rest, fresh)
where
  /-- The same, behind the sign of a comment. -/
  behindComment (flow fresh : Bool) : List Glyph → List Glyph × Bool
    | [] => ([], fresh)
    | glyph :: rest =>
      if isBreak glyph.char then behindBlanks flow (fresh || !flow) rest
      else behindComment flow fresh rest

/-- Skips blanks, comments and line ends. In block style a line end lets a key begin. -/
def skipBlanks (cursor : Cursor) : Cursor :=
  let (rest, fresh) := behindBlanks cursor.inFlow cursor.fresh cursor.rest
  { cursor with rest := rest, fresh := fresh }

/-- What may be a key is one no more when its line has ended, or behind too many characters. -/
def expired (glyph : Glyph) (candidate : Candidate) : Bool :=
  candidate.line < glyph.line || candidate.column + 1024 < glyph.column

/-- Gives up a candidate; nothing if it has to be a key. -/
def giveUp? (candidate : Option Candidate) : Option (Option Candidate) :=
  if candidate.any (·.required) then none else some none

/-- Gives up the candidates that have expired. -/
def expire? (cursor : Cursor) : Option Cursor :=
  match cursor.rest with
  | [] => some cursor
  | glyph :: _ => do
    let update := fun candidate =>
      if candidate.any (expired glyph) then giveUp? candidate else some candidate
    some { cursor with candidate := ← update cursor.candidate, outer := ← cursor.outer.mapM update }

/-- Ends the innermost block collections that begin behind a column. -/
def closeFrom (least : Nat) : List Nat → List Piece → List Nat × List Piece
  | [], pieces => ([], pieces)
  | column :: columns, pieces =>
    if least ≤ column then closeFrom least columns (.blockEnd :: pieces)
    else (column :: columns, pieces)

/-- Ends the block collections that begin at a column or behind it, outside flow collections. -/
def close (cursor : Cursor) (least : Nat) : Cursor :=
  if cursor.inFlow then cursor
  else
    let (columns, pieces) := closeFrom least cursor.columns cursor.pieces
    { cursor with columns := columns, pieces := pieces }

/-- Begins a block collection behind some number of pieces, unless one at its column or behind it is
open. -/
def openAt (cursor : Cursor) (column count : Nat) (start : Piece) : Cursor :=
  if cursor.inFlow || column < cursor.margin then cursor
  else { cursor.insert count start with columns := column :: cursor.columns }

/-- Gives up what may be a key. -/
def withoutCandidate? (cursor : Cursor) : Option Cursor := do
  some { cursor with candidate := ← giveUp? cursor.candidate }

/-- Takes the piece that comes next at a place for what may be a key, if one may begin there. -/
def withCandidate? (cursor : Cursor) (glyph : Glyph) : Option Cursor := do
  if cursor.fresh then
    let cursor ← cursor.withoutCandidate?
    let required := !cursor.inFlow && cursor.columns.head? == some glyph.column
    some { cursor with candidate := some ⟨cursor.pieces.length, glyph.line, glyph.column, required⟩ }
  else some cursor

end Cursor

end MatlabFront.Yaml
