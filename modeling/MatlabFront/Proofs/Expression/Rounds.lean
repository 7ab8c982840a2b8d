import MatlabFront.Proofs.Expression.Complete
import MatlabFront.Proofs.Expression.Consumed
import MatlabFront.Proofs.Parser.Rounds

/-!
# The rounds of the loops in expressions

The loops of the parser of expressions are the operators behind an operand, the rows of a literal,
and the lists of arguments and of parameters.
-/

namespace MatlabFront

namespace Parser

variable {steps : Nat} {s : State}

/-- An expression takes at least one token. -/
theorem expression_passes (nesting : Nesting) (power : Nat) :
    (expression steps nesting power s).Ensures fun _ final => s.Passes final := by
  intro whole final run
  have reads := Grammar.soundAt steps (.expression nesting power whole) s final run
  exact .of_reaches reads.reaches reads.length_le

/-- The postfix operator that comes next is taken. -/
theorem postfixNode_passes {left : Expr} {operator : PostfixOperator} {token : Token}
    (known : s.peek = some token) (suffix : token.kind.postfixOperator? = some operator) :
    (postfixNode steps left operator token.pos s).Ensures fun _ final => s.Passes final := by
  intro whole final run
  have reads := Grammar.soundAt steps (.suffix left token whole) s final
    ⟨known, operator, suffix, run⟩
  exact .of_reaches reads.reaches reads.length_le

/-- The operators that are applied to an operand, one after the other. -/
def operatorsRound (nesting : Nesting) (power steps : Nat) (left : Expr) :
    Parser (Turn Expr Expr) := do
  match ← peek with
  | none => return .leave left
  | some token =>
    if ← atNewElement nesting then return .leave left
    else match token.kind.postfixOperator? with
      | some operator =>
        if operator.leftPower < power then return .leave left
        else return .again (← postfixNode steps left operator token.pos) id
      | none =>
        match token.kind.infixOperator? with
        | some operator =>
          if operator.leftPower < power then return .leave left
          else
            advance
            let right ← expression steps nesting operator.rightPower
            return .again (.infixNode operator left right token.pos) id
        | none => return .leave left

/-- A round of the operators goes on behind the operator that it has taken. -/
theorem operators_loops (nesting : Nesting) (power : Nat) :
    Loops (fun steps left => operators steps nesting power left)
      (operatorsRound nesting power) where
  unfolds steps left s := by
    simp only [operators, operatorsRound, bind_apply, peek_apply, Outcome.bind_done]
    cases s.peek with
    | none => rfl
    | some token =>
      simp only [bind_apply, atNewElement_apply, Outcome.bind_done]
      split
      · rfl
      cases token.kind.postfixOperator? with
      | some operator =>
        dsimp only
        split
        · rfl
        · simp only [bind_apply, Outcome.bind_bind, pure_apply, Outcome.bind_done,
            Turn.follow_again_id]
      | none =>
        cases token.kind.infixOperator? with
        | none => rfl
        | some operator =>
          dsimp only
          split
          · rfl
          · simp only [bind_apply, advance_apply, Outcome.bind_bind, pure_apply,
              Outcome.bind_done, Turn.follow_again_id]
  takes steps left s := by
    simp only [operatorsRound, bind_apply, peek_apply, Outcome.bind_done]
    cases known : s.peek with
    | none => exact .done trivial
    | some token =>
      have first := State.Passes.next known
      simp only [bind_apply, atNewElement_apply, Outcome.bind_done]
      split
      · exact .done trivial
      cases suffix : token.kind.postfixOperator? with
      | some operator =>
        dsimp only
        split
        · exact .done trivial
        · exact (postfixNode_passes known suffix).andThen fun _ _ later => .done later
      | none =>
        cases token.kind.infixOperator? with
        | none => exact .done trivial
        | some operator =>
          dsimp only
          split
          · exact .done trivial
          · simp only [bind_apply, advance_apply, Outcome.bind_done]
            exact (expression_passes nesting _).bind fun _ _ later =>
              .done (first.before later.reaches)

/-- A mark of a run of transpose marks. -/
def marksRound (_ : Nat) (_ : Unit) : Parser (Turn Unit String) := do
  match ← peek with
  | none => return .leave ""
  | some token =>
    if token.kind.isMark then
      advance
      return .again () (token.text ++ ·)
    else return .leave ""

/-- The marks of a transpose are read in a loop, a mark in each round. -/
theorem marks_loops : Loops (fun _ _ => transposeMarks) marksRound where
  unfolds _ _ s := by
    have whole (s : State) : transposeMarks s = .done s.marks (s.skip Kind.isMark) := rfl
    simp only [marksRound, bind_apply, peek_apply, Outcome.bind_done, whole]
    obtain ⟨consumed, _ | ⟨token, rest⟩, scope, events⟩ := s
    · rfl
    by_cases mark : token.kind.isMark = true
    · simp [State.peek, State.marks, State.skip, State.next, mark, Turn.follow]
    · simp [State.peek, State.marks, State.skip, mark, Turn.follow]
  takes _ _ s := by
    simp only [marksRound, bind_apply, peek_apply, Outcome.bind_done]
    cases known : s.peek with
    | none => exact .done trivial
    | some token =>
      dsimp only
      split
      · simp only [bind_apply, advance_apply, Outcome.bind_done]
        exact .done (.next known)
      · exact .done trivial

/-- An element of a literal or what stands between two of them. -/
def elementsRound (close : Kind) (steps : Nat) (afterElement : Bool) :
    Parser (Turn Bool (List Expr × List (List Expr))) := do
  match ← peekKind with
  | none => complain (.unterminatedLiteral close)
  | some kind =>
    if kind = close then
      advance
      return .leave ([], [])
    else if kind = .semicolon ∨ kind = .newline then
      advance
      return .again false fun rest => ([], rowsOf rest.1 rest.2)
    else if kind = .comma then
      if afterElement then
        advance
        return .again false id
      else complain .unexpectedComma
    else
      let element ← expression steps .elements 0
      return .again true fun rest => (element :: rest.1, rest.2)

/-- The elements of a literal are read in a loop, an element or a separator in each round. -/
theorem elements_loops (close : Kind) :
    Loops (fun steps afterElement => elements steps close afterElement)
      (elementsRound close) where
  unfolds steps afterElement s := by
    simp only [elementsRound, bind_apply, peekKind_apply, Outcome.bind_done]
    cases known : s.peekKind with
    | none => exact elements_of_end known
    | some kind =>
      rw [elements_of_peekKind known]
      dsimp only
      split
      · simp only [bind_apply, advance_apply, Outcome.bind_done]
        rfl
      split
      · simp only [bind_apply, advance_apply, Outcome.bind_done, pure_apply]
        rfl
      split
      · split
        · simp only [bind_apply, advance_apply, Outcome.bind_done, pure_apply,
            Turn.follow_again_id]
        · rfl
      · rw [bind_apply, Outcome.bind_bind]
        rfl
  takes steps afterElement s := by
    simp only [elementsRound, bind_apply, peekKind_apply, Outcome.bind_done]
    cases known : s.peekKind with
    | none => exact .failed
    | some kind =>
      have first := State.Passes.next_of_peekKind known
      dsimp only
      split
      · simp only [bind_apply, advance_apply, Outcome.bind_done]
        exact .done trivial
      split
      · simp only [bind_apply, advance_apply, Outcome.bind_done]
        exact .done first
      split
      · split
        · simp only [bind_apply, advance_apply, Outcome.bind_done]
          exact .done first
        · exact .failed
      · exact (expression_passes .elements 0).andThen fun _ _ later => .done later

/-- An argument and the comma or the closing bracket behind it. -/
def argumentsRound (close : Kind) (steps : Nat) (_ : Unit) : Parser (Turn Unit (List Expr)) := do
  let first ← expression steps .group 0
  if ← consume .comma then return .again () (first :: ·)
  else
    discard (expect close)
    return .leave [first]

/-- Arguments are read in a loop, one of them and a comma in each round. -/
theorem arguments_loops (close : Kind) :
    Loops (fun steps _ => argumentsFrom steps close) (argumentsRound close) where
  unfolds steps _ s := by
    refine argumentsFrom_succ.trans ?_
    simp only [argumentsRound, bind_apply]
    cases expression steps .group 0 s with
    | failed | exhausted => rfl
    | done first s₁ =>
      change (if s₁.peekKind = some .comma then _ else _) = _
      simp only [Outcome.bind_done, bind_apply, consume_apply]
      split
      · rfl
      · simp only [Outcome.bind_done, Bool.false_eq_true, ↓reduceIte, discard_bind,
          Outcome.bind_bind]
        rfl
  takes steps _ s := by
    refine (expression_passes .group 0).andThen fun first s₁ later => ?_
    simp only [bind_apply, consume_apply]
    split
    · exact .done (later.before (State.Reaches.refl s₁).next)
    · simp only [Outcome.bind_done, Bool.false_eq_true, ↓reduceIte, discard_bind]
      exact Turn.leaves_takes

/-- A parameter and the comma or the parenthesis behind it. -/
def parametersRound (_ : Nat) (_ : Unit) : Parser (Turn Unit (List Param)) := fun s =>
  match s.param? with
  | none => complain (.missing .ident) s
  | some param =>
    (do
      if ← consume .comma then return .again () (param :: ·)
      else
        discard (expect .rightParen)
        return .leave [param] : Parser (Turn Unit (List Param))) s.next

/-- Parameters are read in a loop, one of them and a comma in each round. -/
theorem parameters_loops :
    Loops (fun steps _ => parametersFrom steps) parametersRound where
  unfolds steps _ s := by
    refine parametersFrom_succ.trans ?_
    unfold parametersRound
    cases s.param? with
    | none => rfl
    | some param =>
      simp only [bind_apply, consume_apply]
      split
      · rfl
      · simp only [Outcome.bind_done, Bool.false_eq_true, ↓reduceIte, discard_bind,
          Outcome.bind_bind]
        rfl
  takes steps _ s := by
    unfold parametersRound
    cases declares : s.param? with
    | none => exact .failed
    | some param =>
      have shorter := State.length_next_of_param declares
      have first : s.Passes s.next := .of_reaches (State.Reaches.refl s).next (by omega)
      simp only [bind_apply, consume_apply]
      split
      · exact .done (first.before (State.Reaches.refl s.next).next)
      · simp only [Outcome.bind_done, Bool.false_eq_true, ↓reduceIte, discard_bind]
        exact Turn.leaves_takes

end Parser

end MatlabFront
