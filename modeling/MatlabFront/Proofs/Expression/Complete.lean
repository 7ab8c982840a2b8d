import MatlabFront.Proofs.Expression.Steps

/-!
# What the grammar reads is accepted

An expression that the rules read is read by the parser, between the same two states and with the
same tree, as soon as it has eight steps for each token and a few more. Each rule but the empty run
of operators reads a token, so the steps that lead from one function to the next are paid for.
-/

namespace MatlabFront

/-- A known next token makes the tokens behind it fewer by one. -/
theorem State.length_next {s : State} {token : Token} (known : s.peek = some token) :
    s.rest.length = s.next.rest.length + 1 := by
  rw [State.rest_of_peek known, List.length_cons]

/-- Reading on leaves no more tokens. -/
theorem State.length_next_le (s : State) : s.next.rest.length ≤ s.rest.length := by
  rw [State.next, List.length_tail]
  exact Nat.sub_le _ _

/-- Going over a token of a known kind leaves one token less. -/
theorem State.length_next_of_peekKind {s : State} {kind : Kind}
    (known : s.peekKind = some kind) : s.rest.length = s.next.rest.length + 1 := by
  obtain ⟨token, found, -⟩ := State.peek_of_peekKind known
  exact State.length_next found

/-- Behind a transpose mark that comes next fewer tokens are left. -/
theorem State.length_skip_isMark {s : State} {token : Token} (known : s.peek = some token)
    (mark : token.kind.isMark = true) : (s.skip Kind.isMark).rest.length < s.rest.length := by
  have first : s.rest = token :: s.next.rest := State.rest_of_peek known
  have shorter := (List.dropWhile_suffix (l := s.next.rest) (·.kind.isMark)).length_le
  simp only [State.skip, first, List.dropWhile_cons, mark, ↓reduceIte, List.length_cons]
  omega

/-- A parameter is declared by a token. -/
theorem State.length_next_of_param {s : State} {param : Param} (declares : s.param? = some param) :
    s.rest.length = s.next.rest.length + 1 := by
  obtain ⟨_, known, -⟩ := State.token_of_param declares
  exact State.length_next known

namespace Grammar

/-- How many tokens a phrase has at least. -/
def Phrase.least : Phrase → Nat
  | .operators .. => 0
  | _ => 1

/-- A phrase takes tokens from those left. -/
theorem Reads.length_le {phrase : Phrase} {s final : State} (reads : Reads phrase s final) :
    final.rest.length + phrase.least ≤ s.rest.length := by
  induction reads with
  | expression _ _ head tail => simp only [Phrase.least] at *; omega
  | stop => simp [Phrase.least]
  | postfixed _ _ _ _ _ _ head tail => simp only [Phrase.least] at *; omega
  | infixed known _ _ _ _ _ head tail =>
    have := State.length_next known
    simp only [Phrase.least] at *; omega
  | ident known | number known | string known | lastIndex known | colon known | ignored known
  | named known =>
    have := State.length_next known
    simp only [Phrase.least, State.note_rest]; omega
  | unary known _ _ _ head | atSign known _ _ head | matrix known _ _ head | cell known _ _ head
  | call known _ _ head | cellIndex known _ _ head =>
    have := State.length_next known
    simp only [Phrase.least] at *; omega
  | parens known _ _ closes head =>
    have := State.length_next known
    have := State.length_next_of_peekKind closes
    simp only [Phrase.least] at *; omega
  | lambda _ _ _ head tail => simp only [Phrase.least] at *; omega
  | close known | noArguments known =>
    have := State.length_next_of_peekKind known
    simp only [Phrase.least] at *; omega
  | rowEnd known _ _ _ head | comma known _ _ head =>
    have := State.length_next_of_peekKind known
    simp only [Phrase.least] at *; omega
  | element _ _ _ _ _ head tail => simp only [Phrase.least] at *; omega
  | member known _ name =>
    have := State.length_next known
    have := State.length_next name
    simp only [Phrase.least]; omega
  | dynamic known _ opens _ closes head =>
    have := State.length_next known
    have := State.length_next_of_peekKind opens
    have := State.length_next_of_peekKind closes
    simp only [Phrase.least] at *; omega
  | transpose known mark =>
    have := State.length_skip_isMark known mark
    simp only [Phrase.least]; omega
  | arguments _ _ head => exact head
  | argument _ more _ head tail =>
    have := State.length_next_of_peekKind more
    simp only [Phrase.least] at *; omega
  | lastArgument _ closes _ head =>
    have := State.length_next_of_peekKind closes
    simp only [Phrase.least] at *; omega
  | noParameters opens closes =>
    have := State.length_next_of_peekKind opens
    have := State.length_next_of_peekKind closes
    simp only [Phrase.least]; omega
  | parameters opens _ _ head =>
    have := State.length_next_of_peekKind opens
    simp only [Phrase.least] at *; omega
  | parameter declares more _ head =>
    have := State.length_next_of_param declares
    have := State.length_next_of_peekKind more
    simp only [Phrase.least] at *; omega
  | lastParameter declares closes =>
    have := State.length_next_of_param declares
    have := State.length_next_of_peekKind closes
    simp only [Phrase.least]; omega

/-- The steps that a phrase takes before its first token. -/
def Phrase.level : Phrase → Nat
  | .operand .. | .suffix .. | .parameters .. | .parametersFrom .. => 0
  | .expression .. | .operators .. | .handle .. => 1
  | .elements .. | .argumentsFrom .. => 2
  | .arguments .. => 3

/-- Some steps are enough for a phrase between two states. -/
def Phrase.Fits (phrase : Phrase) (s final : State) (steps : Nat) : Prop :=
  8 * s.rest.length + phrase.level ≤ steps + 8 * final.rest.length

/-- A phrase is accepted between two states with enough steps. -/
def Phrase.Complete (s final : State) (phrase : Phrase) : Prop :=
  ∀ steps, phrase.Fits s final steps → phrase.Accepted steps s final

namespace Phrase.Complete

section Parts

variable {phrase part first second : Phrase} {s s₀ s₁ s₂ final : State}

/-- A phrase without parts takes one step. -/
theorem of_none (shorter : 8 * final.rest.length < 8 * s.rest.length + phrase.level)
    (accepts : ∀ steps, phrase.Accepted (steps + 1) s final) : phrase.Complete s final := by
  intro steps fits
  rw [Fits] at fits
  obtain ⟨steps, rfl⟩ : ∃ fewer, steps = fewer + 1 := ⟨steps - 1, by omega⟩
  exact accepts steps

/-- A phrase takes one step more than its only part, which begins later or on a lower level. -/
theorem of_part (reads : Reads part s₀ s₁) (complete : part.Complete s₀ s₁)
    (start : 8 * s₀.rest.length + part.level < 8 * s.rest.length + phrase.level)
    (last : final.rest.length ≤ s₁.rest.length)
    (accepts : ∀ steps, part.Accepted steps s₀ s₁ → phrase.Accepted (steps + 1) s final) :
    phrase.Complete s final := by
  intro steps fits
  have shrinks := reads.length_le
  rw [Fits] at fits
  obtain ⟨steps, rfl⟩ : ∃ fewer, steps = fewer + 1 := ⟨steps - 1, by omega⟩
  exact accepts steps (complete steps (by rw [Fits]; omega))

/-- A phrase takes one step more than its two parts, of which each begins later or on a lower
level. -/
theorem of_parts (firstReads : Reads first s₀ s₁) (secondReads : Reads second s₂ final)
    (one : first.Complete s₀ s₁) (two : second.Complete s₂ final)
    (start : 8 * s₀.rest.length + first.level < 8 * s.rest.length + phrase.level)
    (middle : 8 * s₂.rest.length + second.level < 8 * s.rest.length + phrase.level)
    (order : s₂.rest.length ≤ s₁.rest.length)
    (accepts : ∀ steps, first.Accepted steps s₀ s₁ → second.Accepted steps s₂ final →
      phrase.Accepted (steps + 1) s final) : phrase.Complete s final := by
  intro steps fits
  have front := firstReads.length_le
  have back := secondReads.length_le
  rw [Fits] at fits
  obtain ⟨steps, rfl⟩ : ∃ fewer, steps = fewer + 1 := ⟨steps - 1, by omega⟩
  exact accepts steps (one steps (by rw [Fits]; omega)) (two steps (by rw [Fits]; omega))

end Parts

variable {nesting : Nesting} {power : Nat} {left middle right inner whole first last body : Expr}
  {args row : List Expr} {rows : List (List Expr)} {param : Param} {params : List Param}
  {token : Token} {close kind : Kind} {afterElement : Bool} {pos : Position} {s s₁ s₂ : State}

/-- A phrase of one token is accepted if it is with one step. -/
theorem of_token {phrase : Phrase} (known : s.peek = some token)
    (accepts : ∀ steps, phrase.Accepted (steps + 1) s s.next) : phrase.Complete s s.next := by
  have shorter := State.length_next known
  exact .of_none (by omega) accepts

/-- An expression is accepted with its first operand and the operators behind it. -/
theorem expression (headReads : Reads (.operand nesting left) s s₁)
    (tailReads : Reads (.operators nesting power left whole) s₁ s₂)
    (head : Complete s s₁ (.operand nesting left))
    (tail : Complete s₁ s₂ (.operators nesting power left whole)) :
    Complete s s₂ (.expression nesting power whole) := by
  have shorter := headReads.length_le
  simp only [least] at shorter
  refine .of_parts headReads tailReads head tail (by simp only [level]; omega)
    (by simp only [level]; omega) (Nat.le_refl _) fun steps operand operators => ?_
  exact Outcome.bind_eq_done.mpr ⟨_, _, operand, operators⟩

/-- Operators are accepted from one behind its operand on. -/
theorem postfixed {operator : PostfixOperator} (known : s.peek = some token)
    (gap : s.atGap nesting = false) (entry : token.kind.postfixOperator? = some operator)
    (strong : power ≤ operator.leftPower) (headReads : Reads (.suffix left token middle) s s₁)
    (tailReads : Reads (.operators nesting power middle whole) s₁ s₂)
    (head : Complete s s₁ (.suffix left token middle))
    (tail : Complete s₁ s₂ (.operators nesting power middle whole)) :
    Complete s s₂ (.operators nesting power left whole) := by
  have shorter := headReads.length_le
  simp only [least] at shorter
  refine .of_parts headReads tailReads head tail (by simp only [level]; omega)
    (by simp only [level]; omega) (Nat.le_refl _) fun steps suffix operators => ?_
  obtain ⟨-, found, same, run⟩ := suffix
  obtain rfl := Option.some.inj (entry.symm.trans same)
  exact (Parser.operators_of_postfix known gap entry strong).trans
    (Outcome.bind_eq_done.mpr ⟨_, _, run, operators⟩)

/-- Operators are accepted from one between two operands on. -/
theorem infixed {operator : InfixOperator} (known : s.peek = some token)
    (gap : s.atGap nesting = false) (entry : token.kind.infixOperator? = some operator)
    (strong : power ≤ operator.leftPower)
    (headReads : Reads (.expression nesting operator.rightPower right) s.next s₁)
    (tailReads : Reads (.operators nesting power
      (.infixNode operator left right token.pos) whole) s₁ s₂)
    (head : Complete s.next s₁ (.expression nesting operator.rightPower right))
    (tail : Complete s₁ s₂
      (.operators nesting power (.infixNode operator left right token.pos) whole)) :
    Complete s s₂ (.operators nesting power left whole) := by
  have sign := State.length_next known
  have shorter := headReads.length_le
  refine .of_parts headReads tailReads head tail (by simp only [level]; omega)
    (by simp only [level]; omega) (Nat.le_refl _) fun steps operand operators => ?_
  exact (Parser.operators_of_infix known gap (Kind.postfixOperator?_of_infix entry) entry
    strong).trans (Outcome.bind_eq_done.mpr ⟨_, _, operand, operators⟩)

/-- An operator in front of its operand is accepted. A tilde that is one is not alone. -/
theorem unary {operator : UnaryOperator} (known : s.peek = some token)
    (entry : token.kind.unaryOperator? = some operator)
    (attached : token.kind = .tilde → s.tildeAlone nesting = false)
    (headReads : Reads (.expression nesting UnaryOperator.operandPower inner) s.next s₁)
    (head : Complete s.next s₁ (.expression nesting UnaryOperator.operandPower inner)) :
    Complete s s₁ (.operand nesting (.unary operator inner token.pos)) := by
  have sign := State.length_next known
  refine .of_part headReads head (by simp only [level]; omega) (Nat.le_refl _) fun steps run => ?_
  have kind := Kind.unaryOperator?_eq_some_iff.mp entry
  cases operator with
  | plus | minus =>
    simp only [Accepted, Parser.operand_of_peek known, kind, UnaryOperator.kind]
    exact Outcome.bind_eq_done.mpr ⟨_, _, run, rfl⟩
  | not =>
    simp only [Accepted, Parser.operand_of_peek known, kind, UnaryOperator.kind, attached kind,
      Bool.false_eq_true, ↓reduceIte]
    exact Outcome.bind_eq_done.mpr ⟨_, _, run, rfl⟩

/-- What stands in parentheses is accepted with them. -/
theorem parens (known : s.peek = some token) (kind : token.kind = .leftParen)
    (headReads : Reads (.expression .group 0 inner) s.next s₁)
    (closes : s₁.peekKind = some .rightParen)
    (head : Complete s.next s₁ (.expression .group 0 inner)) :
    Complete s s₁.next (.operand nesting (.parens inner token.pos)) := by
  have bracket := State.length_next known
  refine .of_part headReads head (by simp only [level]; omega) s₁.length_next_le fun steps run => ?_
  simp only [Accepted, Parser.operand_of_peek known, kind]
  exact Outcome.bind_eq_done.mpr ⟨_, _, run, Parser.discard_expect_bind closes⟩

/-- A literal in brackets or braces is accepted with them. -/
theorem literal {node : List (List Expr) → Position → Expr}
    (known : s.peek = some token)
    (sort : token.kind = .leftBracket ∧ close = .rightBracket ∧ node = .matrix ∨
      token.kind = .leftBrace ∧ close = .rightBrace ∧ node = .cell)
    (headReads : Reads (.elements close false row rows) s.next s₁)
    (head : Complete s.next s₁ (.elements close false row rows)) :
    Complete s s₁ (.operand nesting (node (Parser.rowsOf row rows) token.pos)) := by
  have bracket := State.length_next known
  refine .of_part headReads head (by simp only [level]; omega) (Nat.le_refl _) fun steps run => ?_
  obtain ⟨kind, rfl, rfl⟩ | ⟨kind, rfl, rfl⟩ := sort <;>
    simp only [Accepted, Parser.operand_of_peek known, kind] <;>
    exact Outcome.bind_eq_done.mpr ⟨_, _, run, rfl⟩

/-- An anonymous function is accepted with its parameters and its body. -/
theorem lambda (opens : s.peekKind = some .leftParen) (headReads : Reads (.parameters params) s s₁)
    (tailReads : Reads (.expression nesting lambdaBodyPower body) s₁ s₂)
    (head : Complete s s₁ (.parameters params))
    (tail : Complete s₁ s₂ (.expression nesting lambdaBodyPower body)) :
    Complete s s₂ (.handle nesting pos (.lambda params body pos)) := by
  obtain ⟨token, known, kind⟩ := State.peek_of_peekKind opens
  have shorter := headReads.length_le
  simp only [least] at shorter
  refine .of_parts headReads tailReads head tail (by simp only [level]; omega)
    (by simp only [level]; omega) (Nat.le_refl _) fun steps parameters run => ?_
  simp only [Accepted, Parser.handle_of_peek known, kind]
  refine Outcome.bind_eq_done.mpr ⟨_, _, parameters, ?_⟩
  exact Outcome.bind_eq_done.mpr ⟨_, _, run, rfl⟩

/-- The rows of a literal are accepted from the end of a row on. -/
theorem rowEnd (known : s.peekKind = some kind) (differs : kind ≠ close)
    (breaks : kind = .semicolon ∨ kind = .newline)
    (headReads : Reads (.elements close false row rows) s.next s₁)
    (head : Complete s.next s₁ (.elements close false row rows)) :
    Complete s s₁ (.elements close afterElement [] (Parser.rowsOf row rows)) := by
  have shorter := State.length_next_of_peekKind known
  refine .of_part headReads head (by simp only [level]; omega) (Nat.le_refl _) fun steps run => ?_
  simp only [Accepted, Parser.elements_of_peekKind known, if_neg differs, if_pos breaks]
  exact Outcome.bind_eq_done.mpr ⟨_, _, run, rfl⟩

/-- The rows of a literal are accepted from a comma behind an element on. -/
theorem comma (known : s.peekKind = some .comma) (differs : .comma ≠ close)
    (headReads : Reads (.elements close false row rows) s.next s₁)
    (head : Complete s.next s₁ (.elements close false row rows)) :
    Complete s s₁ (.elements close true row rows) := by
  have shorter := State.length_next_of_peekKind known
  refine .of_part headReads head (by simp only [level]; omega) (Nat.le_refl _) fun steps run => ?_
  simp only [Accepted, Parser.elements_of_peekKind known, if_neg differs, reduceCtorEq, or_self,
    ↓reduceIte]
  exact run

/-- The rows of a literal are accepted from an element on. -/
theorem element (known : s.peekKind = some kind) (differs : kind ≠ close)
    (plain : kind.isSeparator = false) (headReads : Reads (.expression .elements 0 first) s s₁)
    (tailReads : Reads (.elements close true row rows) s₁ s₂)
    (head : Complete s s₁ (.expression .elements 0 first))
    (tail : Complete s₁ s₂ (.elements close true row rows)) :
    Complete s s₂ (.elements close afterElement (first :: row) rows) := by
  have shorter := headReads.length_le
  simp only [least] at shorter
  refine .of_parts headReads tailReads head tail (by simp only [level]; omega)
    (by simp only [level]; omega) (Nat.le_refl _) fun steps element rest => ?_
  have breaks : ¬(kind = .semicolon ∨ kind = .newline) := by
    rintro (rfl | rfl) <;> simp [Kind.isSeparator] at plain
  have separates : kind ≠ .comma := by
    rintro rfl
    simp [Kind.isSeparator] at plain
  simp only [Accepted, Parser.elements_of_peekKind known, if_neg differs, if_neg breaks,
    if_neg separates]
  refine Outcome.bind_eq_done.mpr ⟨_, _, element, ?_⟩
  exact Outcome.bind_eq_done.mpr ⟨_, _, rest, rfl⟩

/-- A call and an index with braces are accepted with their arguments. -/
theorem subscript {operator : PostfixOperator} {node : List Expr → Expr}
    (known : s.peek = some token) (entry : token.kind.postfixOperator? = some operator)
    (sort : operator = .call ∧ close = .rightParen ∧ node = left.apply ∨
      operator = .cellIndex ∧ close = .rightBrace ∧ node = fun args => .cellIndex left args left.pos)
    (headReads : Reads (.arguments close args) s.next s₁)
    (head : Complete s.next s₁ (.arguments close args)) :
    Complete s s₁ (.suffix left token (node args)) := by
  have bracket := State.length_next known
  refine .of_part headReads head (by simp only [level]; omega) (Nat.le_refl _) fun steps run => ?_
  refine ⟨known, operator, entry, ?_⟩
  rw [Parser.postfixNode_succ]
  obtain ⟨rfl, rfl, rfl⟩ | ⟨rfl, rfl, rfl⟩ := sort <;>
    exact Outcome.bind_eq_done.mpr ⟨_, _, run, rfl⟩

/-- A field with a dynamic name is accepted with its parentheses. -/
theorem dynamic (known : s.peek = some token) (kind : token.kind = .dot)
    (opens : s.next.peekKind = some .leftParen)
    (headReads : Reads (.expression .group 0 inner) s.next.next s₁)
    (closes : s₁.peekKind = some .rightParen)
    (head : Complete s.next.next s₁ (.expression .group 0 inner)) :
    Complete s s₁.next (.suffix left token (.member left (.dynamic inner) token.pos)) := by
  have dot := State.length_next known
  have bracket := State.length_next_of_peekKind opens
  obtain ⟨opening, here, openingKind⟩ := State.peek_of_peekKind opens
  refine .of_part headReads head (by simp only [level]; omega) s₁.length_next_le fun steps run => ?_
  refine ⟨known, _, by rw [kind]; rfl, ?_⟩
  simp only [Parser.postfixNode_succ, here, openingKind]
  exact Outcome.bind_eq_done.mpr ⟨_, _, run, Parser.discard_expect_bind closes⟩

/-- Arguments are accepted from one with a comma behind it on. -/
theorem argument (headReads : Reads (.expression .group 0 first) s s₁)
    (more : s₁.peekKind = some .comma) (tailReads : Reads (.argumentsFrom close args) s₁.next s₂)
    (head : Complete s s₁ (.expression .group 0 first))
    (tail : Complete s₁.next s₂ (.argumentsFrom close args)) :
    Complete s s₂ (.argumentsFrom close (first :: args)) := by
  have shorter := headReads.length_le
  have comma := State.length_next_of_peekKind more
  refine .of_parts headReads tailReads head tail (by simp only [level]; omega)
    (by simp only [level]; omega) s₁.length_next_le fun steps argument rest => ?_
  simp only [Accepted, Parser.argumentsFrom_succ]
  refine Outcome.bind_eq_done.mpr ⟨_, _, argument, ?_⟩
  rw [if_pos more]
  exact Outcome.bind_eq_done.mpr ⟨_, _, rest, rfl⟩

/-- The last argument is accepted with the closing bracket. -/
theorem lastArgument (headReads : Reads (.expression .group 0 last) s s₁)
    (closes : s₁.peekKind = some close) (differs : close ≠ .comma)
    (head : Complete s s₁ (.expression .group 0 last)) :
    Complete s s₁.next (.argumentsFrom close [last]) := by
  obtain ⟨closing, taken⟩ := Parser.expect_of_peekKind closes
  refine .of_part headReads head (by simp only [level]; omega) s₁.length_next_le fun steps run => ?_
  simp only [Accepted, Parser.argumentsFrom_succ]
  refine Outcome.bind_eq_done.mpr ⟨_, _, run, ?_⟩
  rw [if_neg (by simpa [closes] using differs)]
  exact Outcome.bind_eq_done.mpr ⟨_, _, taken, rfl⟩

/-- No parameters are accepted with their parentheses, which need no step of their own. -/
theorem noParameters (opens : s.peekKind = some .leftParen)
    (closes : s.next.peekKind = some .rightParen) :
    Complete s s.next.next (.parameters []) := by
  intro steps _
  obtain ⟨opening, taken⟩ := Parser.expect_of_peekKind opens
  simp only [Accepted, Parser.parameters_apply]
  refine Outcome.bind_eq_done.mpr ⟨_, _, taken, ?_⟩
  rw [if_pos closes]

/-- Parameters are accepted with the parenthesis in front of them, which needs no step of its own. -/
theorem parameters (opens : s.peekKind = some .leftParen)
    (differs : s.next.peekKind ≠ some .rightParen)
    (head : Complete s.next s₁ (.parametersFrom params)) : Complete s s₁ (.parameters params) := by
  intro steps fits
  have bracket := State.length_next_of_peekKind opens
  obtain ⟨opening, taken⟩ := Parser.expect_of_peekKind opens
  simp only [Accepted, Parser.parameters_apply]
  refine Outcome.bind_eq_done.mpr ⟨_, _, taken, ?_⟩
  rw [if_neg differs]
  refine head steps ?_
  simp only [Fits, level] at fits ⊢
  omega

/-- Parameters are accepted from one with a comma behind it on. -/
theorem parameter (declares : s.param? = some param) (more : s.next.peekKind = some .comma)
    (headReads : Reads (.parametersFrom params) s.next.next s₁)
    (head : Complete s.next.next s₁ (.parametersFrom params)) :
    Complete s s₁ (.parametersFrom (param :: params)) := by
  have word := State.length_next_of_param declares
  have comma := State.length_next_of_peekKind more
  refine .of_part headReads head (by simp only [level]; omega) (Nat.le_refl _) fun steps run => ?_
  simp only [Accepted, Parser.parametersFrom_succ, declares, if_pos more]
  exact Outcome.bind_eq_done.mpr ⟨_, _, run, rfl⟩

/-- The last parameter is accepted with the closing parenthesis. -/
theorem lastParameter (declares : s.param? = some param)
    (closes : s.next.peekKind = some .rightParen) :
    Complete s s.next.next (.parametersFrom [param]) := by
  have word := State.length_next_of_param declares
  have bracket := State.length_next_of_peekKind closes
  obtain ⟨closing, taken⟩ := Parser.expect_of_peekKind closes
  refine .of_none (by simp only [level]; omega) fun steps => ?_
  simp only [Accepted, Parser.parametersFrom_succ, declares, closes, Option.some.injEq,
    reduceCtorEq, ↓reduceIte]
  exact Outcome.bind_eq_done.mpr ⟨_, _, taken, rfl⟩

end Phrase.Complete

/-- Every phrase that the rules read is accepted with enough steps. -/
theorem Reads.complete {phrase : Phrase} {s final : State} (reads : Reads phrase s final) :
    phrase.Complete s final := by
  induction reads with
  | expression headReads tailReads head tail => exact .expression headReads tailReads head tail
  | stop stops =>
    exact .of_none (by simp only [Phrase.level]; omega) fun _ => Parser.operators_of_stops stops
  | postfixed known gap entry strong headReads tailReads head tail =>
    exact .postfixed known gap entry strong headReads tailReads head tail
  | infixed known gap entry strong headReads tailReads head tail =>
    exact .infixed known gap entry strong headReads tailReads head tail
  | ident known kind =>
    have shorter := State.length_next known
    refine .of_none (by simp only [State.note_rest]; omega) fun steps => ?_
    simp only [Phrase.Accepted, Parser.operand_of_peek known, kind]
  | number known kind | string known kind =>
    refine .of_token known fun steps => ?_
    simp only [Phrase.Accepted, Parser.operand_of_peek known, kind]
  | lastIndex known kind text inside =>
    refine .of_token known fun steps => ?_
    simp only [Phrase.Accepted, Parser.operand_of_peek known, kind, if_pos (And.intro text inside)]
  | colon known kind alone | ignored known kind alone =>
    refine .of_token known fun steps => ?_
    simp only [Phrase.Accepted, Parser.operand_of_peek known, kind, if_pos alone]
  | unary known entry attached headReads head => exact .unary known entry attached headReads head
  | atSign known kind headReads head =>
    have sign := State.length_next known
    refine .of_part headReads head (by simp only [Phrase.level]; omega) (Nat.le_refl _)
      fun steps run => ?_
    simp only [Phrase.Accepted, Parser.operand_of_peek known, kind]
    exact run
  | parens known kind headReads closes head => exact .parens known kind headReads closes head
  | matrix known kind headReads head =>
    exact .literal known (.inl ⟨kind, rfl, rfl⟩) headReads head
  | cell known kind headReads head => exact .literal known (.inr ⟨kind, rfl, rfl⟩) headReads head
  | lambda opens headReads tailReads head tail => exact .lambda opens headReads tailReads head tail
  | named known kind =>
    refine .of_token known fun steps => ?_
    simp only [Phrase.Accepted, Parser.handle_of_peek known, kind]
  | close known =>
    obtain ⟨token, found, rfl⟩ := State.peek_of_peekKind known
    refine .of_token found fun steps => ?_
    simp only [Phrase.Accepted, Parser.elements_of_peekKind known, ↓reduceIte]
  | rowEnd known differs breaks headReads head => exact .rowEnd known differs breaks headReads head
  | comma known differs headReads head => exact .comma known differs headReads head
  | element known differs plain headReads tailReads head tail =>
    exact .element known differs plain headReads tailReads head tail
  | call known kind headReads head =>
    exact .subscript known (by rw [kind]; rfl) (.inl ⟨rfl, rfl, rfl⟩) headReads head
  | cellIndex known kind headReads head =>
    exact .subscript known (by rw [kind]; rfl) (.inr ⟨rfl, rfl, rfl⟩) headReads head
  | member known kind named nameKind =>
    have dot := State.length_next known
    have name := State.length_next named
    refine .of_none (by simp only [Phrase.level]; omega) fun steps => ?_
    refine ⟨known, _, by rw [kind]; rfl, ?_⟩
    simp only [Parser.postfixNode_succ, named, nameKind]
  | dynamic known kind opens headReads closes head =>
    exact .dynamic known kind opens headReads closes head
  | transpose known mark =>
    have shorter := State.length_skip_isMark known mark
    exact .of_none (by simp only [Phrase.level]; omega) fun steps =>
      ⟨known, _, Kind.postfix_of_isMark mark, Parser.postfixNode_succ⟩
  | noArguments closes =>
    obtain ⟨token, found, rfl⟩ := State.peek_of_peekKind closes
    refine .of_token found fun steps => ?_
    simp only [Phrase.Accepted, Parser.arguments_succ, if_pos closes]
  | arguments differs headReads head =>
    refine .of_part headReads head (by simp only [Phrase.level]; omega) (Nat.le_refl _)
      fun steps run => ?_
    simp only [Phrase.Accepted, Parser.arguments_succ, if_neg differs]
    exact run
  | argument headReads more tailReads head tail =>
    exact .argument headReads more tailReads head tail
  | lastArgument headReads closes differs head => exact .lastArgument headReads closes differs head
  | noParameters opens closes => exact .noParameters opens closes
  | parameters opens differs _ head => exact .parameters opens differs head
  | parameter declares more headReads head => exact .parameter declares more headReads head
  | lastParameter declares closes => exact .lastParameter declares closes

/-- What the rules read is accepted with enough steps. -/
theorem Reads.accepted {phrase : Phrase} {s final : State} (reads : Reads phrase s final)
    {steps : Nat} (fits : phrase.Fits s final steps) : phrase.Accepted steps s final :=
  reads.complete steps fits

end Grammar

end MatlabFront
