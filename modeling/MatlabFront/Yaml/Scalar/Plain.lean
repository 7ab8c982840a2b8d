import MatlabFront.Yaml.Glyph

/-!
# Scalars without quotes

A scalar without quotes goes on over blanks and line ends until an indicator ends it, or a line that
is not indented deeply enough. Comments and marks of documents end it, too.
-/

namespace MatlabFront.Yaml

/-- A scalar without quotes can begin here. -/
def startsPlain (flow : Bool) : List Glyph → Bool
  | [] => false
  | glyph :: rest =>
    let c := glyph.char
    if c = '-' then !(firstChar? rest).any isBlank
    else if c = '?' ∨ c = ':' then !flow && !atGap rest
    else !(isGap (some c) || isFlowIndicator c || "#&*!|>'\"%@\x60".toList.contains c)

/-- The characters of a plain scalar up to a gap or an indicator that ends it, and the text behind
them. In flow style a colon cannot stand in front of an indicator. -/
def plainRun? (flow : Bool) : List Glyph → Option (List Char × List Glyph)
  | [] => some ([], [])
  | glyph :: rest =>
    let c := glyph.char
    if isGap (some c) then some ([], glyph :: rest)
    else if flow && c == ':' && (firstChar? rest).any (fun d => d == '?' || isFlowIndicator d) then
      none
    else if (c == ':' && atGap rest) || (flow && isFlowIndicator c) then some ([], glyph :: rest)
    else (plainRun? flow rest).map fun (run, rest) => (c :: run, rest)

/-- A tab stands where a line has to be indented by spaces. -/
def tabIndents (margin : Nat) (text : List Glyph) : Bool :=
  ((gapGlyphs text).dropWhile (isBlank ·.char)).any fun glyph =>
    glyph.char == '\t' && glyph.column < margin

/-- A plain scalar does not go on behind a gap: at a comment, at a mark of a document, or at a line
that is not indented deeply enough. -/
def endsPlain (flow : Bool) (margin : Nat) (text : List Glyph) : Bool :=
  firstChar? text == some '#' || atDocumentMarker text
    || (!flow && text.head?.any (·.column < margin))

/-- A scalar without quotes, as it is read. -/
structure Plain where
  text : List Char
  /-- A line ended behind the scalar. -/
  crossed : Bool
  rest : List Glyph

/-- A scalar without quotes that may go on over as many gaps as there are steps. -/
def plainIn? (flow : Bool) (margin : Nat) : Nat → List Glyph → Option Plain
  | 0, _ => none
  | steps + 1, text => do
    let (run, rest) ← plainRun? flow text
    let gap := gapHere rest
    let after := behindGap rest
    if (gapGlyphs rest).isEmpty then some ⟨run, false, rest⟩
    else if tabIndents margin rest then none
    else if endsPlain flow margin after then some ⟨run, !gap.breaks.isEmpty, after⟩
    else
      let more ← plainIn? flow margin steps after
      if more.text.isEmpty then some ⟨run, !gap.breaks.isEmpty, after⟩
      else some { more with text := run ++ gap.folded ++ more.text }

/-- The scalar without quotes that comes next. Its lines are indented by the margin or more. -/
def plain? (flow : Bool) (margin : Nat) (text : List Glyph) : Option Plain :=
  plainIn? flow margin (text.length + 1) text

end MatlabFront.Yaml
