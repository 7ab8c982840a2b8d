import MatlabFront.Proofs.Expression.Table
import MatlabFront.Token.Literal
import MatlabFront.Tree

/-!
# The spelling of expressions

The spelling of a tree is what its tokens are in order: a kind for each operator, bracket, comma and
dot, the text of each name and number, the value of each string, and the marks of each transpose as
one text. Inside a literal it also holds the places where separators may stand. A layout says which
tokens fill these places; `Fills` says that a run of tokens writes a spelling in some layout.
-/

namespace MatlabFront

namespace Spelling

/-- One place in the order of the tokens of a tree. -/
inductive Item where
  | kind (kind : Kind)
  /-- A name, or the tilde that stands for an ignored one. -/
  | word (text : String)
  /-- The name of a field or of a function, for which no tilde can stand. -/
  | name (text : String)
  | number (text : String)
  | string (value : String)
  /-- The word `end` as an index. -/
  | lastIndex
  /-- A run of transpose marks. -/
  | marks (text : String)
  /-- The place behind the opening and in front of the closing bracket of a literal. -/
  | edge
  /-- The place between two elements of a row. -/
  | between
  /-- The place between two rows. -/
  | rowBreak

/-- A token is what an item says. -/
def Item.WrittenBy (token : Token) : Item → Prop
  | .kind wanted => token.kind = wanted
  | .word text => token.kind = .ident ∧ token.text = text ∨ token.kind = .tilde ∧ text = "~"
  | .name text => token.kind = .ident ∧ token.text = text
  | .number text => token.kind = .number ∧ token.text = text
  | .string value => token.kind = .string ∧ Literal.unquote token.text = value
  | .lastIndex => token.kind = .endKeyword ∧ token.text = "end"
  | .marks _ | .edge | .between | .rowBreak => False

/-- Which runs of tokens may stand at the three places of a literal. -/
structure Layout where
  edge : List Token → Prop
  between : List Token → Prop
  rowBreak : List Token → Prop

/-- The layout of every literal that is accepted: a comma at most between two elements of a row, and
a separator that is no comma between two rows. -/
def Layout.free : Layout where
  edge gap := ∀ token ∈ gap, token.kind.isSeparator = true
  between gap := gap = [] ∨ ∃ token, gap = [token] ∧ token.kind = .comma
  rowBreak gap :=
    (∀ token ∈ gap, token.kind.isSeparator = true) ∧ ∃ token ∈ gap, token.kind ≠ .comma

/-- The layout with a comma between two elements and a semicolon between two rows. -/
def Layout.plain : Layout where
  edge gap := gap = []
  between gap := ∃ token, gap = [token] ∧ token.kind = .comma
  rowBreak gap := ∃ token, gap = [token] ∧ token.kind = .semicolon

/-- A run of tokens writes a spelling in a layout. -/
inductive Layout.Fills (layout : Layout) : List Item → List Token → Prop where
  | nil : layout.Fills [] []
  | token {item : Item} {items : List Item} {token : Token} {run : List Token} :
    item.WrittenBy token → layout.Fills items run → layout.Fills (item :: items) (token :: run)
  | marks {items : List Item} {tokens run : List Token} : tokens ≠ [] →
    (∀ token ∈ tokens, token.kind.isMark = true) → layout.Fills items run →
      layout.Fills (.marks (String.join (tokens.map (·.text))) :: items) (tokens ++ run)
  | edge {items : List Item} {gap run : List Token} : layout.edge gap → layout.Fills items run →
    layout.Fills (.edge :: items) (gap ++ run)
  | between {items : List Item} {gap run : List Token} : layout.between gap →
    layout.Fills items run → layout.Fills (.between :: items) (gap ++ run)
  | rowBreak {items : List Item} {gap run : List Token} : layout.rowBreak gap →
    layout.Fills items run → layout.Fills (.rowBreak :: items) (gap ++ run)

variable {layout : Layout} {items more : List Item} {run rest : List Token}

/-- Two spellings are written one behind the other. -/
theorem Layout.Fills.append (head : layout.Fills items run) (tail : layout.Fills more rest) :
    layout.Fills (items ++ more) (run ++ rest) := by
  induction head with
  | nil => exact tail
  | token written _ ih => exact .token written ih
  | marks some all _ ih =>
    rw [List.append_assoc]
    exact .marks some all ih
  | edge gap _ ih =>
    rw [List.append_assoc]
    exact .edge gap ih
  | between gap _ ih =>
    rw [List.append_assoc]
    exact .between gap ih
  | rowBreak gap _ ih =>
    rw [List.append_assoc]
    exact .rowBreak gap ih

/-- What writes two spellings in order splits between them. -/
theorem Layout.Fills.split (fills : layout.Fills (items ++ more) run) :
    ∃ head tail, run = head ++ tail ∧ layout.Fills items head ∧ layout.Fills more tail := by
  induction items generalizing run with
  | nil => exact ⟨[], run, rfl, .nil, fills⟩
  | cons item items ih =>
    cases fills with
    | token written later =>
      obtain ⟨head, tail, rfl, first, second⟩ := ih later
      exact ⟨_ :: head, tail, rfl, .token written first, second⟩
    | marks some all later =>
      obtain ⟨head, tail, rfl, first, second⟩ := ih later
      exact ⟨_ ++ head, tail, (List.append_assoc ..).symm, .marks some all first, second⟩
    | edge gap later =>
      obtain ⟨head, tail, rfl, first, second⟩ := ih later
      exact ⟨_ ++ head, tail, (List.append_assoc ..).symm, .edge gap first, second⟩
    | between gap later =>
      obtain ⟨head, tail, rfl, first, second⟩ := ih later
      exact ⟨_ ++ head, tail, (List.append_assoc ..).symm, .between gap first, second⟩
    | rowBreak gap later =>
      obtain ⟨head, tail, rfl, first, second⟩ := ih later
      exact ⟨_ ++ head, tail, (List.append_assoc ..).symm, .rowBreak gap first, second⟩

/-- One token writes one item. -/
theorem Layout.Fills.single {item : Item} {token : Token} (written : item.WrittenBy token) :
    layout.Fills [item] [token] := .token written .nil

/-- A token of a kind in front of a run writes the kind in front of its spelling. -/
theorem Layout.Fills.kind {token : Token} {kind : Kind} (same : token.kind = kind)
    (later : layout.Fills items run) : layout.Fills (.kind kind :: items) (token :: run) :=
  .token same later

/-- A token of a kind behind a run writes the kind behind its spelling. -/
theorem Layout.Fills.concat {token : Token} {kind : Kind} (head : layout.Fills items run)
    (same : token.kind = kind) : layout.Fills (items ++ [.kind kind]) (run ++ [token]) :=
  head.append (.kind same .nil)

/-- An item that some token writes is written by the first of a run. -/
theorem Layout.Fills.uncons {item : Item} {token : Token} (possible : item.WrittenBy token)
    (fills : layout.Fills (item :: items) run) :
    ∃ first later, run = first :: later ∧ item.WrittenBy first ∧ layout.Fills items later := by
  cases fills with
  | token written later => exact ⟨_, _, rfl, written, later⟩
  | marks | edge | between | rowBreak => exact possible.elim

/-- A kind is written by the first of a run. -/
theorem Layout.Fills.uncons_kind {kind : Kind} (fills : layout.Fills (.kind kind :: items) run) :
    ∃ first later, run = first :: later ∧ first.kind = kind ∧ layout.Fills items later :=
  Layout.Fills.uncons (show Item.WrittenBy ⟨kind, "", .origin⟩ (.kind kind) from rfl) fills

/-- The marks of a transpose are written by the first tokens of a run. -/
theorem Layout.Fills.uncons_marks {text : String}
    (fills : layout.Fills (.marks text :: items) run) :
    ∃ tokens later, run = tokens ++ later ∧ tokens ≠ [] ∧
      (∀ token ∈ tokens, token.kind.isMark = true) ∧ String.join (tokens.map (·.text)) = text ∧
      layout.Fills items later := by
  cases fills with
  | token written => exact written.elim
  | marks some all later => exact ⟨_, _, rfl, some, all, rfl, later⟩

/-- At an edge a layout leaves one of the gaps that it allows there. -/
theorem Layout.fills_edge_iff :
    layout.Fills (.edge :: items) run ↔
      ∃ gap later, run = gap ++ later ∧ layout.edge gap ∧ layout.Fills items later := by
  constructor
  · intro fills
    cases fills with
    | token written => exact written.elim
    | edge gap later => exact ⟨_, _, rfl, gap, later⟩
  · rintro ⟨gap, later, rfl, wide, fills⟩
    exact .edge wide fills

/-- Between two elements a layout leaves one of the gaps that it allows there. -/
theorem Layout.fills_between_iff :
    layout.Fills (.between :: items) run ↔
      ∃ gap later, run = gap ++ later ∧ layout.between gap ∧ layout.Fills items later := by
  constructor
  · intro fills
    cases fills with
    | token written => exact written.elim
    | between gap later => exact ⟨_, _, rfl, gap, later⟩
  · rintro ⟨gap, later, rfl, wide, fills⟩
    exact .between wide fills

/-- Between two rows a layout leaves one of the gaps that it allows there. -/
theorem Layout.fills_rowBreak_iff :
    layout.Fills (.rowBreak :: items) run ↔
      ∃ gap later, run = gap ++ later ∧ layout.rowBreak gap ∧ layout.Fills items later := by
  constructor
  · intro fills
    cases fills with
    | token written => exact written.elim
    | rowBreak gap later => exact ⟨_, _, rfl, gap, later⟩
  · rintro ⟨gap, later, rfl, wide, fills⟩
    exact .rowBreak wide fills

end Spelling

open Spelling

/-- The spelling of a parameter. -/
def Param.spelling (param : Param) : List Item := [.word param.name]

/-- The spelling of parts of a list with a separator between them. -/
def listSpelling (separator : Item) (parts : List (List Item)) : List Item :=
  List.intercalate [separator] parts

/-- The first part of a list has no separator in front of it, and each later one has. -/
theorem listSpelling_cons (separator : Item) (part : List Item) (parts : List (List Item)) :
    listSpelling separator (part :: parts) = part ++ parts.flatMap (separator :: ·) := by
  unfold listSpelling
  induction parts generalizing part with
  | nil => simp
  | cons next parts ih =>
    rw [List.intercalate_cons_cons, ih]
    simp

mutual

/-- The spelling of an expression. -/
def Expr.spelling : Expr → List Item
  | .ident name => [.word name.name]
  | .number text _ => [.number text]
  | .string value _ => [.string value]
  | .colon _ => [.kind .colon]
  | .range start none stop _ => start.spelling ++ .kind .colon :: stop.spelling
  | .range start (some step) stop _ =>
    start.spelling ++ .kind .colon :: step.spelling ++ .kind .colon :: stop.spelling
  | .lastIndex _ => [.lastIndex]
  | .unary operator operand _ => .kind operator.kind :: operand.spelling
  | .binary left operator right _ => left.spelling ++ .kind operator.kind :: right.spelling
  | .matrix rows _ =>
    .kind .leftBracket :: .edge :: listSpelling .rowBreak (rowSpellings rows) ++
      [.edge, .kind .rightBracket]
  | .cell rows _ =>
    .kind .leftBrace :: .edge :: listSpelling .rowBreak (rowSpellings rows) ++
      [.edge, .kind .rightBrace]
  | .call (.mk callee args _ _) =>
    callee.spelling ++ .kind .leftParen :: listSpelling (.kind .comma) (spellings args) ++
      [.kind .rightParen]
  | .flatten object args _ =>
    object.spelling ++ .kind .leftParen :: listSpelling (.kind .comma) (spellings args) ++
      [.kind .rightParen]
  | .cellIndex object args _ =>
    object.spelling ++ .kind .leftBrace :: listSpelling (.kind .comma) (spellings args) ++
      [.kind .rightBrace]
  | .member object (.named name) _ => object.spelling ++ [.kind .dot, .name name.name]
  | .member object (.dynamic inner) _ =>
    object.spelling ++ .kind .dot :: .kind .leftParen :: inner.spelling ++ [.kind .rightParen]
  | .transpose operand marks _ => operand.spelling ++ [.marks marks]
  | .lambda params body _ =>
    .kind .atSign :: .kind .leftParen ::
      listSpelling (.kind .comma) (params.map Param.spelling) ++ .kind .rightParen :: body.spelling
  | .handle function _ => [.kind .atSign, .name function.name]
  | .parens inner _ => .kind .leftParen :: inner.spelling ++ [.kind .rightParen]

/-- The spelling of each of some expressions. -/
def spellings : List Expr → List (List Item)
  | [] => []
  | expr :: exprs => expr.spelling :: spellings exprs

/-- The spelling of each of some rows. -/
def rowSpellings : List (List Expr) → List (List Item)
  | [] => []
  | row :: rows => listSpelling .between (spellings row) :: rowSpellings rows

end

end MatlabFront
