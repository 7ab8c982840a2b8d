import Mathlib.Tactic.Convert
import MatlabFront.Proofs.Program.Copied
import MatlabFront.Proofs.Program.Located

/-!
# Spacing outside of literals does not matter

A strict parse looks at the positions of its tokens for one purpose: to see the gaps between the
elements of a literal. Two token lists with the same words and the same gaps in literals are the
same program, or fail for the same reason at the same token. What they have in common is a result
whose positions are the numbers of tokens.
-/

namespace MatlabFront

/-- A token and the one behind it are adjacent, given the number of the first. There is no answer
for the last token. -/
def adjacentAt (tokens : List Token) (number : Nat) : Option Bool :=
  match tokens[number]?, tokens[number + 1]? with
  | some first, some second => some (first.adjacentTo second)
  | _, _ => none

instance (tokens : List Token) : Decidable (InLiteral tokens) := inferInstanceAs (Decidable (_ ∨ _))

/-- Two token lists have the same kinds and texts, and in literals the same gaps. -/
structure SameSpacing (tokens other : List Token) : Prop where
  words : other.map (fun token => (token.kind, token.text)) =
    tokens.map fun token => (token.kind, token.text)
  gaps : ∀ number < tokens.length, InLiteral (tokens.take (number + 1)) →
    adjacentAt other number = adjacentAt tokens number

/-- The position of the token with a number. The line of a position is read as the number. -/
def Position.placed (tokens : List Token) (number : Position) : Position :=
  (tokens[number.line]?.map Token.pos).getD .origin

/-- A result whose positions are numbers of tokens, with the positions of these tokens. Where the
input ends is the end of the last token. -/
def placeResult (tokens : List Token) : Except Failure Program → Except Failure Program :=
  relocateResult (.placed tokens) (.behind tokens) (Program.relocate (.placed tokens))

/-- The positions in a result, but for the end of the input. -/
def resultPositions : Except Failure Program → List Position
  | .ok program => program.positions
  | .error (.syntaxFault _ (some token) pos) => [token.pos, pos]
  | .error (.syntaxFault _ none _) => []
  | .error (.invalidTarget _ pos) => [pos]

/-- Two results of parsing are the same, but that each position in one is that of a token of the
first list where the position in the other is that of the token with the same number. -/
def SameButPlace (tokens other : List Token) (one two : Option (Except Failure Program)) : Prop :=
  ∃ outline : Option (Except Failure Program),
    (∀ result ∈ outline, ∀ number ∈ resultPositions result, number.line < tokens.length) ∧
      one = outline.map (placeResult tokens) ∧ two = outline.map (placeResult other)

/-- Some tokens with the number of each as the line of its position. -/
def numbered (tokens : List Token) : List Token :=
  tokens.mapIdx fun number token => ⟨token.kind, token.text, ⟨number, token.pos.offset⟩⟩

variable {tokens other : List Token}

/-- Tokens are spaced as they are. -/
theorem SameSpacing.refl (tokens : List Token) : SameSpacing tokens tokens :=
  ⟨rfl, fun _ _ _ => rfl⟩

/-- Tokens with the same spacing are as many. -/
theorem SameSpacing.length_eq (same : SameSpacing tokens other) : other.length = tokens.length := by
  simpa using congrArg List.length same.words

/-- Tokens with the same number have the same kind and text. -/
theorem SameSpacing.word {number : Nat} {first second : Token} (same : SameSpacing tokens other)
    (here : tokens[number]? = some first) (there : other[number]? = some second) :
    second.kind = first.kind ∧ second.text = first.text := by
  have words := congrArg (·[number]?) same.words
  simpa [here, there] using words

/-- A numbered token is the token with this number, apart from the line of its position. -/
theorem numbered_getElem? {number : Nat} {token : Token}
    (known : (numbered tokens)[number]? = some token) :
    ∃ original, tokens[number]? = some original ∧
      token = ⟨original.kind, original.text, ⟨number, original.pos.offset⟩⟩ := by
  rw [numbered, List.getElem?_mapIdx, Option.map_eq_some_iff] at known
  obtain ⟨original, here, rfl⟩ := known
  exact ⟨original, here, rfl⟩

/-- Numbering tokens keeps their kinds. -/
theorem kinds_numbered (tokens : List Token) :
    (numbered tokens).map Token.kind = tokens.map Token.kind := by
  refine List.ext_getElem? fun number => ?_
  rw [numbered, List.getElem?_map, List.getElem?_map, List.getElem?_mapIdx, Option.map_map]
  rfl

/-- The numbers of tokens are less than their count. -/
theorem line_lt_of_mem_numbered {token : Token} (inside : token ∈ numbered tokens) :
    token.pos.line < tokens.length := by
  obtain ⟨number, known⟩ := List.mem_iff_getElem?.mp inside
  obtain ⟨original, here, rfl⟩ := numbered_getElem? known
  obtain ⟨bound, -⟩ := List.getElem?_eq_some_iff.mp here
  exact bound

/-- The tokens of the other list stand where the numbers say. -/
theorem SameSpacing.numbered_placed (same : SameSpacing tokens other) :
    (numbered tokens).map (Token.relocate (.placed other)) = other := by
  refine List.ext_getElem? fun number => ?_
  rw [List.getElem?_map, numbered, List.getElem?_mapIdx]
  cases here : tokens[number]? with
  | none =>
    have bound := List.getElem?_eq_none_iff.mp here
    exact (List.getElem?_eq_none_iff.mpr (same.length_eq ▸ bound)).symm
  | some first =>
    obtain ⟨bound, -⟩ := List.getElem?_eq_some_iff.mp here
    obtain ⟨second, there⟩ : ∃ second, other[number]? = some second :=
      ⟨_, List.getElem?_eq_getElem (same.length_eq ▸ bound)⟩
    obtain ⟨kind, text⟩ := same.word here there
    have place : Position.placed other ⟨number, first.pos.offset⟩ = second.pos := by
      simp [Position.placed, there]
    rw [there, Option.map_some, Option.map_some, Token.relocate, place, ← kind, ← text]

/-- The brackets that are open behind some tokens depend on their kinds only. -/
theorem bracketsBehind_congr {brackets : List Kind}
    (same : tokens.map Token.kind = other.map Token.kind) :
    bracketsBehind brackets tokens = bracketsBehind brackets other := by
  have kinds (tokens : List Token) : bracketsBehind brackets tokens =
      (tokens.map Token.kind).foldl Context.bracketsAfter brackets := by
    rw [List.foldl_map, bracketsBehind]
  rw [kinds, kinds, same]

/-- The other list is a copy of the numbered tokens with the same gaps in literals. -/
theorem SameSpacing.faithful (same : SameSpacing tokens other) :
    (Copy.mk (numbered tokens) (.placed other) []).Faithful := by
  intro before first second later whole literal
  have whole : numbered tokens = before ++ first :: second :: later := whole
  have here : (numbered tokens)[before.length]? = some first := by simp [whole]
  have next : (numbered tokens)[before.length + 1]? = some second := by
    simp [whole]
  have there : other[before.length]? = some (first.relocate (.placed other)) := by
    rw [← same.numbered_placed, List.getElem?_map, here, same.numbered_placed, Option.map_some]
  have behind : other[before.length + 1]? = some (second.relocate (.placed other)) := by
    rw [← same.numbered_placed, List.getElem?_map, next, same.numbered_placed, Option.map_some]
  have inside : InLiteral (tokens.take (before.length + 1)) := by
    have front : (numbered tokens).take (before.length + 1) = before ++ [first] := by
      rw [whole, List.append_cons]
      exact List.take_left' (by simp)
    have kinds : (tokens.take (before.length + 1)).map Token.kind =
        (before ++ [first]).map Token.kind := by
      rw [List.map_take, ← kinds_numbered, ← List.map_take, front]
    rwa [InLiteral, bracketsBehind_congr kinds]
  obtain ⟨one, first', rfl⟩ := numbered_getElem? here
  obtain ⟨two, second', rfl⟩ := numbered_getElem? next
  obtain ⟨bound, -⟩ := List.getElem?_eq_some_iff.mp first'
  have gaps := same.gaps before.length bound inside
  simp only [adjacentAt, there, behind, first', second', Option.some.injEq] at gaps
  exact gaps

/-- A strict parse does not depend on the spacing of its tokens outside of literals, nor on how
their lines and offsets are counted: token lists with the same words and the same gaps in literals
come to the same program, or fail for the same reason at the same token. -/
theorem Program.ofTokens_of_sameSpacing (same : SameSpacing tokens other) :
    SameButPlace tokens other (Program.ofTokens .strict tokens)
      (Program.ofTokens .strict other) := by
  have placed {other : List Token} (same : SameSpacing tokens other) :
      Program.ofTokens .strict other =
        (Program.ofTokens .strict (numbered tokens)).map (placeResult other) := by
    have moved := Program.ofTokens_relocate same.faithful (nofun : Dialect.strict = .matlab → _)
    rwa [same.numbered_placed] at moved
  refine ⟨Program.ofTokens .strict (numbered tokens), ?_, placed (.refl tokens), placed same⟩
  intro result known number inside
  have numbers (token : Token) (among : token ∈ numbered tokens) :
      token.pos.line < tokens.length := line_lt_of_mem_numbered among
  cases result with
  | ok program =>
    have located := TopLocated.of_accepted known
    obtain ⟨token, among, rfl⟩ := List.mem_map.mp (located.positions_subset inside)
    exact numbers token among
  | error failure =>
    have within := Program.within_of_refused known
    match failure, within with
    | .syntaxFault _ (some token) pos, ⟨among, here⟩ =>
      obtain rfl : number = token.pos := by simpa [resultPositions, here] using inside
      exact numbers token among
    | .invalidTarget _ pos, ⟨token, among, here⟩ =>
      obtain rfl : number = token.pos := by simpa [resultPositions, here] using inside
      exact numbers token among
    | .syntaxFault _ none pos, _ => cases inside

/-- In a literal a sign without a gap behind it begins an element however wide the gap in front of
it is, and a gap in front of the semicolon makes no difference. -/
theorem Program.ofTokens_of_respaced_sign :
    SameButPlace
      [⟨.leftBracket, "[", ⟨1, 0⟩⟩, ⟨.ident, "a", ⟨1, 1⟩⟩, ⟨.minus, "-", ⟨1, 3⟩⟩,
        ⟨.ident, "b", ⟨1, 4⟩⟩, ⟨.rightBracket, "]", ⟨1, 5⟩⟩, ⟨.semicolon, ";", ⟨1, 6⟩⟩]
      [⟨.leftBracket, "[", ⟨3, 20⟩⟩, ⟨.ident, "a", ⟨3, 21⟩⟩, ⟨.minus, "-", ⟨3, 27⟩⟩,
        ⟨.ident, "b", ⟨3, 28⟩⟩, ⟨.rightBracket, "]", ⟨3, 29⟩⟩, ⟨.semicolon, ";", ⟨3, 33⟩⟩]
      (some (.ok ⟨[.eval (.matrix [[.ident ⟨"a", ⟨1, 1⟩⟩,
        .unary .minus (.ident ⟨"b", ⟨1, 4⟩⟩) ⟨1, 3⟩]] ⟨1, 0⟩) ⟨1, 0⟩]⟩))
      (some (.ok ⟨[.eval (.matrix [[.ident ⟨"a", ⟨3, 21⟩⟩,
        .unary .minus (.ident ⟨"b", ⟨3, 28⟩⟩) ⟨3, 27⟩]] ⟨3, 20⟩) ⟨3, 20⟩]⟩)) := by
  have same : SameSpacing
      [⟨.leftBracket, "[", ⟨1, 0⟩⟩, ⟨.ident, "a", ⟨1, 1⟩⟩, ⟨.minus, "-", ⟨1, 3⟩⟩,
        ⟨.ident, "b", ⟨1, 4⟩⟩, ⟨.rightBracket, "]", ⟨1, 5⟩⟩, ⟨.semicolon, ";", ⟨1, 6⟩⟩]
      [⟨.leftBracket, "[", ⟨3, 20⟩⟩, ⟨.ident, "a", ⟨3, 21⟩⟩, ⟨.minus, "-", ⟨3, 27⟩⟩,
        ⟨.ident, "b", ⟨3, 28⟩⟩, ⟨.rightBracket, "]", ⟨3, 29⟩⟩, ⟨.semicolon, ";", ⟨3, 33⟩⟩] :=
    ⟨rfl, by decide⟩
  convert Program.ofTokens_of_sameSpacing same using 1
  · cbv
  · cbv

end MatlabFront
