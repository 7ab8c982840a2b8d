import Mathlib
import MatlabFront.Proofs.Expression.Sound
import MatlabFront.Proofs.Expression.Spelling
import MatlabFront.Proofs.Parser.Advance

/-!
# No token is lost, invented or moved

The tokens that an accepted expression takes are its spelling, with separators in a literal and
nowhere else left out of the tree. The nodes that are built late keep the order: a range that takes
a step, a run of transpose marks, and a member in parentheses.
-/

namespace MatlabFront

open Spelling

/-- The node of an infix operator is spelled in the order of its parts. -/
theorem Expr.spelling_infixNode {kind : Kind} {operator : InfixOperator}
    (entry : kind.infixOperator? = some operator) (left right : Expr) (pos : Position) :
    (Expr.infixNode operator left right pos).spelling =
      left.spelling ++ .kind kind :: right.spelling := by
  obtain ⟨rfl, rfl⟩ | ⟨binary, rfl, rfl⟩ := Kind.infixOperator?_eq_some entry
  · change (left.rangeTo right pos).spelling = _
    unfold Expr.rangeTo
    split
    · simp [Expr.spelling]
    · simp [Expr.spelling]
  · rfl

/-- A call and a reference to all elements are spelled alike. -/
theorem Expr.spelling_apply (callee : Expr) (args : List Expr) :
    (callee.apply args).spelling =
      callee.spelling ++ .kind .leftParen :: listSpelling (.kind .comma) (spellings args) ++
        [.kind .rightParen] := by
  unfold Expr.apply
  split <;> rfl

/-- The spelling of what is left of a literal: the elements left in the current row, each with a
place in front of it, and the rows after it. -/
def restSpelling (close : Kind) (row : List Expr) (rows : List (List Expr)) : List Item :=
  (spellings row).flatMap (.between :: ·) ++ (rowSpellings rows).flatMap (.rowBreak :: ·) ++
    [.edge, .kind close]

/-- The spelling of what is left of a literal behind a separator, where the next element has no
place in front of it. -/
def behindSeparator (close : Kind) (row : List Expr) (rows : List (List Expr)) : List Item :=
  listSpelling .between (spellings row) ++ (rowSpellings rows).flatMap (.rowBreak :: ·) ++
    [.edge, .kind close]

/-- A row that is left stands behind a separator that ends the row before it. -/
theorem restSpelling_nil_cons (close : Kind) (row : List Expr) (rows : List (List Expr)) :
    restSpelling close [] (row :: rows) = .rowBreak :: behindSeparator close row rows := by
  simp [restSpelling, behindSeparator, spellings, rowSpellings]

/-- An element that is left has a place in front of it. -/
theorem restSpelling_cons (close : Kind) (first : Expr) (row : List Expr)
    (rows : List (List Expr)) :
    restSpelling close (first :: row) rows =
      .between :: (first.spelling ++ restSpelling close row rows) := by
  simp [restSpelling, spellings]

/-- An element behind a separator has no place in front of it. -/
theorem behindSeparator_cons (close : Kind) (first : Expr) (row : List Expr)
    (rows : List (List Expr)) :
    behindSeparator close (first :: row) rows = first.spelling ++ restSpelling close row rows := by
  simp [behindSeparator, restSpelling, spellings, listSpelling_cons]

/-- Without elements left in the current row there is no element for a place to stand in front of.
-/
theorem behindSeparator_nil (close : Kind) (rows : List (List Expr)) :
    behindSeparator close [] rows = restSpelling close [] rows := rfl

/-- The rows of a literal are spelled as if they stood behind a separator. -/
theorem listSpelling_rows (close : Kind) (row : List Expr) (rows : List (List Expr)) :
    listSpelling .rowBreak (rowSpellings (row :: rows)) ++ [.edge, .kind close] =
      behindSeparator close row rows := by
  simp [behindSeparator, rowSpellings, listSpelling_cons]

/-- The next token writes the parameter that it declares. -/
theorem State.writes_of_param {s : State} {param : Param} (declares : s.param? = some param) :
    ∃ token, s.peek = some token ∧ (Item.word param.name).WrittenBy token := by
  obtain ⟨token, known, ⟨tilde, rfl⟩ | ⟨ident, rfl⟩⟩ := State.token_of_param declares
  · exact ⟨token, known, .inr ⟨tilde, rfl⟩⟩
  · exact ⟨token, known, .inl ⟨ident, rfl⟩⟩

namespace Grammar

/-- A run of tokens is the part of the spelling of a tree that a phrase adds to it. -/
def Phrase.Spells (run : List Token) : Phrase → Prop
  | .expression _ _ whole | .operand _ whole => Layout.free.Fills whole.spelling run
  | .operators _ _ left whole | .suffix left _ whole =>
    ∃ added, whole.spelling = left.spelling ++ added ∧ Layout.free.Fills added run
  | .handle _ _ whole =>
    ∃ added, whole.spelling = .kind .atSign :: added ∧ Layout.free.Fills added run
  | .elements close true row rows => Layout.free.Fills (restSpelling close row rows) run
  | .elements close false row rows => Layout.free.Fills (behindSeparator close row rows) run
  | .arguments close args | .argumentsFrom close args =>
    Layout.free.Fills (listSpelling (.kind .comma) (spellings args) ++ [.kind close]) run
  | .parameters params =>
    Layout.free.Fills (.kind .leftParen ::
      listSpelling (.kind .comma) (params.map Param.spelling) ++ [.kind .rightParen]) run
  | .parametersFrom params =>
    Layout.free.Fills (listSpelling (.kind .comma) (params.map Param.spelling) ++
      [.kind .rightParen]) run

/-- A separator joins the place behind it, where no element is left in its row. -/
theorem fills_separator {close : Kind} {rows : List (List Expr)} {token : Token}
    {run : List Token} (separates : token.kind.isSeparator = true)
    (fills : Layout.free.Fills (restSpelling close [] rows) run) :
    Layout.free.Fills (restSpelling close [] rows) (token :: run) := by
  cases rows with
  | nil =>
    obtain ⟨gap, later, rfl, wide, closes⟩ := Layout.fills_edge_iff.mp fills
    refine Layout.fills_edge_iff.mpr ⟨token :: gap, later, rfl, ?_, closes⟩
    simpa [Layout.free, separates] using wide
  | cons first rows =>
    rw [restSpelling_nil_cons] at fills ⊢
    obtain ⟨gap, later, rfl, ⟨all, other, inside, kind⟩, tail⟩ := Layout.fills_rowBreak_iff.mp fills
    refine Layout.fills_rowBreak_iff.mpr ⟨token :: gap, later, rfl, ⟨?_, other, ?_, kind⟩, tail⟩
    · simpa [separates] using all
    · exact List.mem_cons_of_mem _ inside

/-- A separator that ends a row stands in front of the elements behind it. -/
theorem fills_rowEnd {close : Kind} {row : List Expr} {rows : List (List Expr)} {token : Token}
    {run : List Token} (breaks : token.kind = .semicolon ∨ token.kind = .newline)
    (fills : Layout.free.Fills (behindSeparator close row rows) run) :
    Layout.free.Fills (restSpelling close [] (Parser.rowsOf row rows)) (token :: run) := by
  have separates : token.kind.isSeparator = true := by
    rcases breaks with kind | kind <;> simp [kind, Kind.isSeparator]
  cases row with
  | nil => exact fills_separator separates fills
  | cons first row =>
    change Layout.free.Fills (restSpelling close [] ((first :: row) :: rows)) (token :: run)
    rw [restSpelling_nil_cons]
    refine Layout.fills_rowBreak_iff.mpr ⟨[token], run, rfl, ⟨?_, token, by simp, ?_⟩, fills⟩
    · simpa using separates
    · rcases breaks with kind | kind <;> simp [kind]

/-- A comma behind an element stands in front of what is left of the literal. -/
theorem fills_comma {close : Kind} {row : List Expr} {rows : List (List Expr)} {token : Token}
    {run : List Token} (comma : token.kind = .comma)
    (fills : Layout.free.Fills (behindSeparator close row rows) run) :
    Layout.free.Fills (restSpelling close row rows) (token :: run) := by
  cases row with
  | nil => exact fills_separator (by simp [comma, Kind.isSeparator]) fills
  | cons first row =>
    rw [restSpelling_cons]
    rw [behindSeparator_cons] at fills
    exact Layout.fills_between_iff.mpr ⟨[token], run, rfl, .inr ⟨token, rfl, comma⟩, fills⟩

/-- An element may follow another without a token between them. -/
theorem fills_element {close : Kind} {first : Expr} {row : List Expr} {rows : List (List Expr)}
    {head tail : List Token} (element : Layout.free.Fills first.spelling head)
    (fills : Layout.free.Fills (restSpelling close row rows) tail) (afterElement : Bool) :
    (Phrase.elements close afterElement (first :: row) rows).Spells (head ++ tail) := by
  have joined := element.append fills
  cases afterElement with
  | false =>
    change Layout.free.Fills (behindSeparator close (first :: row) rows) (head ++ tail)
    rwa [behindSeparator_cons]
  | true =>
    change Layout.free.Fills (restSpelling close (first :: row) rows) (head ++ tail)
    rw [restSpelling_cons]
    exact Layout.fills_between_iff.mpr ⟨[], head ++ tail, rfl, .inl rfl, joined⟩

/-- The elements of a literal and its closing bracket, behind the opening one. -/
theorem fills_literal {close : Kind} {row : List Expr} {rows : List (List Expr)}
    {run : List Token} (fills : Layout.free.Fills (behindSeparator close row rows) run) :
    Layout.free.Fills (.edge :: listSpelling .rowBreak (rowSpellings (Parser.rowsOf row rows)) ++
      [.edge, .kind close]) run := by
  rw [List.cons_append]
  cases row with
  | nil =>
    cases rows with
    | nil => exact Layout.fills_edge_iff.mpr ⟨[], run, rfl, by simp [Layout.free], fills⟩
    | cons first rows =>
      rw [behindSeparator_nil, restSpelling_nil_cons] at fills
      obtain ⟨gap, later, rfl, wide, tail⟩ := Layout.fills_rowBreak_iff.mp fills
      refine Layout.fills_edge_iff.mpr ⟨gap, later, rfl, wide.1, ?_⟩
      change Layout.free.Fills (listSpelling .rowBreak (rowSpellings (first :: rows)) ++ _) later
      rwa [listSpelling_rows]
  | cons first row =>
    refine Layout.fills_edge_iff.mpr ⟨[], run, rfl, by simp [Layout.free], ?_⟩
    change Layout.free.Fills
      (listSpelling .rowBreak (rowSpellings ((first :: row) :: rows)) ++ _) run
    rwa [listSpelling_rows]

/-- The tokens between two states are the part of the spelling of a tree that a phrase adds to it. -/
def Phrase.SpelledBetween (s final : State) (phrase : Phrase) : Prop :=
  ∃ run, s.Advances run final ∧ phrase.Spells run

namespace Phrase.SpelledBetween

variable {nesting : Nesting} {power : Nat} {left right middle whole inner body : Expr}
  {row args : List Expr} {rows : List (List Expr)} {params : List Param} {param : Param}
  {close : Kind} {afterElement : Bool} {token : Token} {s s₁ s₂ : State}

/-- An expression is spelled as its first operand and then as the operators behind it. -/
theorem expression (head : SpelledBetween s s₁ (.operand nesting left))
    (tail : SpelledBetween s₁ s₂ (.operators nesting power left whole)) :
    SpelledBetween s s₂ (.expression nesting power whole) := by
  obtain ⟨front, first, left⟩ := head
  obtain ⟨back, second, added, same, later⟩ := tail
  refine ⟨front ++ back, first.trans second, ?_⟩
  simp only [Phrase.Spells, same]
  exact left.append later

/-- A postfix operator adds its spelling to that of its operand, and the others add theirs. -/
theorem postfixed (head : SpelledBetween s s₁ (.suffix left token middle))
    (tail : SpelledBetween s₁ s₂ (.operators nesting power middle whole)) :
    SpelledBetween s s₂ (.operators nesting power left whole) := by
  obtain ⟨front, first, suffix, middle, added⟩ := head
  obtain ⟨back, second, others, same, later⟩ := tail
  refine ⟨front ++ back, first.trans second, suffix ++ others, ?_, added.append later⟩
  rw [same, middle, List.append_assoc]

/-- An infix operator adds its sign and its right operand, and the others add theirs. -/
theorem infixed {operator : InfixOperator} (known : s.peek = some token)
    (entry : token.kind.infixOperator? = some operator)
    (head : SpelledBetween s.next s₁ (.expression nesting operator.rightPower right))
    (tail : SpelledBetween s₁ s₂
      (.operators nesting power (.infixNode operator left right token.pos) whole)) :
    SpelledBetween s s₂ (.operators nesting power left whole) := by
  obtain ⟨front, first, operand⟩ := head
  obtain ⟨back, second, added, same, later⟩ := tail
  refine ⟨token :: front ++ back, (first.cons known).trans second,
    .kind token.kind :: right.spelling ++ added, ?_,
    (Layout.Fills.kind rfl operand).append later⟩
  rw [same, Expr.spelling_infixNode entry]
  simp

/-- An anonymous function is spelled as its parameters and then as its body. -/
theorem lambda {pos : Position} (head : SpelledBetween s s₁ (.parameters params))
    (tail : SpelledBetween s₁ s₂ (.expression nesting power body)) :
    SpelledBetween s s₂ (.handle nesting pos (.lambda params body pos)) := by
  obtain ⟨front, first, params⟩ := head
  obtain ⟨back, second, body⟩ := tail
  refine ⟨_, first.trans second, _, rfl, ?_⟩
  simpa using params.append body

/-- The bracket that closes a literal stands behind the edge, also where nothing is left. -/
theorem closes (known : s.peekKind = some close) :
    SpelledBetween s s.next (.elements close afterElement [] []) := by
  obtain ⟨token, found, kind⟩ := State.peek_of_peekKind known
  have last : Layout.free.Fills [.edge, .kind close] [token] :=
    Layout.fills_edge_iff.mpr ⟨[], [token], rfl, by simp [Layout.free], .single kind⟩
  refine ⟨[token], .next found, ?_⟩
  cases afterElement <;> exact last

/-- The end of a row joins the place in front of the next one. -/
theorem rowEnd {kind : Kind} (known : s.peekKind = some kind)
    (breaks : kind = .semicolon ∨ kind = .newline)
    (head : SpelledBetween s.next s₁ (.elements close false row rows)) :
    SpelledBetween s s₁ (.elements close afterElement [] (Parser.rowsOf row rows)) := by
  obtain ⟨run, advances, fills⟩ := head
  obtain ⟨token, found, rfl⟩ := State.peek_of_peekKind known
  refine ⟨token :: run, advances.cons found, ?_⟩
  cases afterElement <;> exact fills_rowEnd breaks fills

/-- A member that is named by an expression adds its dot and the expression in parentheses. -/
theorem dynamic (known : s.peek = some token) (kind : token.kind = .dot)
    (opens : s.next.peekKind = some .leftParen) (closes : s₁.peekKind = some .rightParen)
    (head : SpelledBetween s.next.next s₁ (.expression .group 0 inner)) :
    SpelledBetween s s₁.next (.suffix left token (.member left (.dynamic inner) token.pos)) := by
  obtain ⟨run, advances, inner⟩ := head
  obtain ⟨bracket, here, bracketKind⟩ := State.peek_of_peekKind opens
  obtain ⟨close, found, last⟩ := State.peek_of_peekKind closes
  refine ⟨_, .cons known ((advances.concat found).cons here), _, ?_,
    .kind kind (.kind bracketKind (inner.concat last))⟩
  simp [Expr.spelling]

/-- A transpose adds all of the marks that come next, as one text. -/
theorem transpose (known : s.peek = some token) (mark : token.kind.isMark = true) :
    SpelledBetween s (s.skip Kind.isMark)
      (.suffix left token (.transpose left s.marks token.pos)) := by
  refine ⟨_, .skip s Kind.isMark, _, rfl, ?_⟩
  have first : s.rest = token :: s.next.rest := State.rest_of_peek known
  have all : ∀ token ∈ s.rest.takeWhile (·.kind.isMark), token.kind.isMark = true :=
    fun token inside => List.all_eq_true.mp List.all_takeWhile token inside
  simpa [State.marks] using
    Layout.Fills.marks (show s.rest.takeWhile (·.kind.isMark) ≠ [] by simp [first, mark]) all .nil

/-- Arguments behind a comma are a list that is not empty, so that the comma stands between. -/
theorem argument {first : Expr} (more : s₁.peekKind = some .comma)
    (later : Reads (.argumentsFrom close args) s₁.next s₂)
    (head : SpelledBetween s s₁ (.expression .group 0 first))
    (tail : SpelledBetween s₁.next s₂ (.argumentsFrom close args)) :
    SpelledBetween s s₂ (.argumentsFrom close (first :: args)) := by
  obtain ⟨front, begins, argument⟩ := head
  obtain ⟨back, ends, fills⟩ := tail
  obtain ⟨comma, found, kind⟩ := State.peek_of_peekKind more
  refine ⟨_, begins.trans (ends.cons found), ?_⟩
  cases args with
  | nil => cases later
  | cons second args =>
    have joined := argument.append (Layout.Fills.kind kind fills)
    simpa [Phrase.Spells, spellings, listSpelling_cons] using joined

/-- The last argument stands in front of the closing bracket. -/
theorem lastArgument {last : Expr} (closes : s₁.peekKind = some close)
    (head : SpelledBetween s s₁ (.expression .group 0 last)) :
    SpelledBetween s s₁.next (.argumentsFrom close [last]) := by
  obtain ⟨run, advances, argument⟩ := head
  obtain ⟨close, found, last⟩ := State.peek_of_peekKind closes
  refine ⟨_, advances.concat found, ?_⟩
  simpa [Phrase.Spells, spellings, listSpelling_cons] using argument.concat last

/-- Parameters behind a comma are a list that is not empty, so that the comma stands between. -/
theorem parameter (declares : s.param? = some param) (more : s.next.peekKind = some .comma)
    (later : Reads (.parametersFrom params) s.next.next s₁)
    (head : SpelledBetween s.next.next s₁ (.parametersFrom params)) :
    SpelledBetween s s₁ (.parametersFrom (param :: params)) := by
  obtain ⟨run, advances, fills⟩ := head
  obtain ⟨token, known, word⟩ := State.writes_of_param declares
  obtain ⟨comma, found, kind⟩ := State.peek_of_peekKind more
  refine ⟨_, .cons known (advances.cons found), ?_⟩
  cases params with
  | nil => cases later
  | cons second params =>
    have joined := Layout.Fills.token word (Layout.Fills.kind kind fills)
    simpa [Phrase.Spells, Param.spelling, listSpelling_cons] using joined

end Phrase.SpelledBetween

/-- What a phrase reads is its spelling. -/
theorem Reads.spells {phrase : Phrase} {s final : State} (reads : Reads phrase s final) :
    phrase.SpelledBetween s final := by
  induction reads with
  | expression _ _ head tail => exact .expression head tail
  | @stop nesting power left s _ => exact ⟨[], .refl s, [], by simp, .nil⟩
  | postfixed _ _ _ _ _ _ head tail => exact .postfixed head tail
  | infixed known _ entry _ _ _ head tail => exact .infixed known entry head tail
  | ident known kind => exact ⟨_, .note (.next known) _, .single (.inl ⟨kind, rfl⟩)⟩
  | number known kind => exact ⟨_, .next known, .single ⟨kind, rfl⟩⟩
  | string known kind => exact ⟨_, .next known, .single ⟨kind, rfl⟩⟩
  | lastIndex known kind text => exact ⟨_, .next known, .single ⟨kind, text⟩⟩
  | colon known kind => exact ⟨_, .next known, .single kind⟩
  | ignored known kind => exact ⟨_, .next known, .single (.inr ⟨kind, rfl⟩)⟩
  | unary known entry _ _ head =>
    obtain ⟨run, advances, operand⟩ := head
    exact ⟨_, advances.cons known, .token (Kind.unaryOperator?_eq_some_iff.mp entry) operand⟩
  | atSign known kind _ head =>
    obtain ⟨run, advances, added, whole, fills⟩ := head
    refine ⟨_, advances.cons known, ?_⟩
    simp only [Phrase.Spells, whole]
    exact .token kind fills
  | parens known kind _ closes head =>
    obtain ⟨run, advances, inner⟩ := head
    obtain ⟨close, found, last⟩ := State.peek_of_peekKind closes
    exact ⟨_, (advances.concat found).cons known, .kind kind (inner.concat last)⟩
  | matrix known kind _ head | cell known kind _ head =>
    obtain ⟨run, advances, fills⟩ := head
    refine ⟨_, advances.cons known, .token kind ?_⟩
    exact fills_literal fills
  | lambda _ _ _ head tail => exact .lambda head tail
  | named known kind => exact ⟨_, .next known, _, rfl, .single ⟨kind, rfl⟩⟩
  | close known => exact .closes known
  | rowEnd known _ breaks _ head => exact .rowEnd known breaks head
  | comma known _ _ head =>
    obtain ⟨run, advances, fills⟩ := head
    obtain ⟨token, found, kind⟩ := State.peek_of_peekKind known
    exact ⟨token :: run, advances.cons found, fills_comma kind fills⟩
  | element _ _ _ _ _ head tail =>
    obtain ⟨front, first, element⟩ := head
    obtain ⟨back, second, fills⟩ := tail
    exact ⟨front ++ back, first.trans second, fills_element element fills _⟩
  | call known kind _ head =>
    obtain ⟨run, advances, args⟩ := head
    refine ⟨_, advances.cons known, _, ?_, .kind kind args⟩
    simp [Expr.spelling_apply]
  | cellIndex known kind _ head =>
    obtain ⟨run, advances, args⟩ := head
    refine ⟨_, advances.cons known, _, ?_, .kind kind args⟩
    simp [Expr.spelling]
  | member known kind named name =>
    exact ⟨_, .cons known (.next named), _, rfl, .kind kind (.single ⟨name, rfl⟩)⟩
  | dynamic known kind opens _ closes head => exact .dynamic known kind opens closes head
  | transpose known mark => exact .transpose known mark
  | noArguments closes =>
    obtain ⟨close, found, last⟩ := State.peek_of_peekKind closes
    exact ⟨_, .next found, .kind last .nil⟩
  | arguments _ _ head => exact head
  | argument _ more later head tail => exact .argument more later head tail
  | lastArgument _ closes _ head => exact .lastArgument closes head
  | noParameters opens closes =>
    obtain ⟨bracket, here, bracketKind⟩ := State.peek_of_peekKind opens
    obtain ⟨close, found, last⟩ := State.peek_of_peekKind closes
    exact ⟨_, .cons here (.next found), .kind bracketKind (.kind last .nil)⟩
  | parameters opens _ _ head =>
    obtain ⟨run, advances, fills⟩ := head
    obtain ⟨bracket, here, bracketKind⟩ := State.peek_of_peekKind opens
    exact ⟨_, advances.cons here, .kind bracketKind fills⟩
  | parameter declares more later head => exact .parameter declares more later head
  | lastParameter declares closes =>
    obtain ⟨token, known, word⟩ := State.writes_of_param declares
    obtain ⟨close, found, last⟩ := State.peek_of_peekKind closes
    refine ⟨_, .cons known (.next found), ?_⟩
    exact .token word (.kind last .nil)

/-- A phrase is read forwards. -/
theorem Reads.reaches {phrase : Phrase} {s final : State} (reads : Reads phrase s final) :
    s.Reaches final := by
  obtain ⟨run, advances, -⟩ := reads.spells
  exact ⟨run, advances⟩

end Grammar

/-- Every accepted expression takes exactly the tokens of its tree in order, from any state, in any
bracket and at any power; only the separators of a literal are left out of the tree. -/
theorem Parser.expression_takes_spelling {steps power : Nat} {nesting : Nesting} {whole : Expr}
    {s final : State} (accepted : Parser.expression steps nesting power s = .done whole final) :
    ∃ run, s.rest = run ++ final.rest ∧ final.consumed = run.reverse ++ s.consumed ∧
      Layout.free.Fills whole.spelling run := by
  have reads := Grammar.soundAt steps (.expression nesting power whole) s final accepted
  obtain ⟨run, advances, fills⟩ := reads.spells
  exact ⟨run, advances.rest, advances.consumed, fills⟩

/-- The range `a:b:c` takes its five tokens and leaves the newline behind them. -/
theorem Parser.range_takes_spelling :
    ∃ run,
      [⟨.ident, "a", ⟨1, 0⟩⟩, ⟨.colon, ":", ⟨1, 1⟩⟩, ⟨.ident, "b", ⟨1, 2⟩⟩, ⟨.colon, ":", ⟨1, 3⟩⟩,
        ⟨.ident, "c", ⟨1, 4⟩⟩, ⟨.newline, "\n", ⟨1, 5⟩⟩] = run ++ [⟨.newline, "\n", ⟨1, 5⟩⟩] ∧
      Layout.free.Fills (Expr.range (.ident ⟨"a", ⟨1, 0⟩⟩) (some (.ident ⟨"b", ⟨1, 2⟩⟩))
        (.ident ⟨"c", ⟨1, 4⟩⟩) ⟨1, 1⟩).spelling run := by
  have accepted : Parser.expression 20 .outside 0 ⟨[],
      [⟨.ident, "a", ⟨1, 0⟩⟩, ⟨.colon, ":", ⟨1, 1⟩⟩, ⟨.ident, "b", ⟨1, 2⟩⟩, ⟨.colon, ":", ⟨1, 3⟩⟩,
        ⟨.ident, "c", ⟨1, 4⟩⟩, ⟨.newline, "\n", ⟨1, 5⟩⟩], none, []⟩ =
      .done (.range (.ident ⟨"a", ⟨1, 0⟩⟩) (some (.ident ⟨"b", ⟨1, 2⟩⟩)) (.ident ⟨"c", ⟨1, 4⟩⟩)
        ⟨1, 1⟩) ⟨[⟨.ident, "c", ⟨1, 4⟩⟩, ⟨.colon, ":", ⟨1, 3⟩⟩, ⟨.ident, "b", ⟨1, 2⟩⟩,
          ⟨.colon, ":", ⟨1, 1⟩⟩, ⟨.ident, "a", ⟨1, 0⟩⟩], [⟨.newline, "\n", ⟨1, 5⟩⟩], none, []⟩ := by cbv
  obtain ⟨run, whole, -, fills⟩ := Parser.expression_takes_spelling accepted
  exact ⟨run, whole, fills⟩

end MatlabFront
