import MatlabFront.Proofs.Expression.Complete

/-!
# Expressions are read within their steps

Eight steps for each token left, and a few more for the functions that are entered before the next
token is read, are enough for every function of the parser of expressions. The number of tokens left
carries the induction: a function that goes on with itself has taken a token first.
-/

namespace MatlabFront

/-- A parse ends with fewer tokens left than a bound, or with a failure. -/
inductive Outcome.Finishes (bound : Nat) {α : Type} : Outcome α → Prop where
  | done {value : α} {final : State} : final.rest.length < bound →
    Finishes bound (.done value final)
  | failed {failure : Failure} {met : State} : Finishes bound (.failed failure met)

namespace Outcome.Finishes

variable {α β : Type} {bound middle : Nat} {s : State}

/-- What goes on from a parse that finishes finishes when it does so with the tokens that are left.
-/
theorem bind {outcome : Outcome α} {next : α → Parser β} (head : outcome.Finishes middle)
    (tail : ∀ value s₁, s₁.rest.length < middle → (next value s₁).Finishes bound) :
    (outcome.bind next).Finishes bound := by
  cases head with
  | done left => exact tail _ _ left
  | failed => exact .failed

/-- The same of two parsers one behind the other. -/
theorem andThen {parser : Parser α} {next : α → Parser β} (head : (parser s).Finishes middle)
    (tail : ∀ value s₁, s₁.rest.length < middle → (next value s₁).Finishes bound) :
    ((parser >>= next) s).Finishes bound := head.bind tail

/-- A parse whose result is discarded finishes when it does so with the result. -/
theorem discard {parser : Parser α} (finishes : (parser s).Finishes bound) :
    ((Functor.discard parser : Parser PUnit) s).Finishes bound := finishes.bind fun _ _ => .done

/-- What is expected is a token, so that one less is left. -/
theorem expectOr (complaint : Complaint) (kind : Kind) (left : s.rest.length ≤ bound) :
    (Parser.expectOr complaint kind s).Finishes bound := by
  simp only [Parser.expectOr, Parser.bind_apply, Parser.peek_apply, Outcome.bind_done]
  cases known : s.peek with
  | none => exact .failed
  | some token =>
    dsimp only
    split
    · simp only [Parser.bind_apply, Parser.advance_apply, Outcome.bind_done]
      have shorter := State.length_next known
      exact .done (by omega)
    · exact .failed

/-- A demand for a kind finishes with one token less. -/
theorem expect (kind : Kind) (left : s.rest.length ≤ bound) :
    (Parser.expect kind s).Finishes bound := expectOr _ kind left

end Outcome.Finishes

namespace Parser

/-- Enough steps for each function of the parser of expressions. All of them but the loop of the
operators take a token. -/
structure FinishingExpressions (steps : Nat) : Prop where
  expression {s : State} {bound : Nat} (nesting : Nesting) (power : Nat) :
    8 * s.rest.length + 2 ≤ steps → s.rest.length ≤ bound →
      (expression steps nesting power s).Finishes bound
  operators {s : State} {bound : Nat} (nesting : Nesting) (power : Nat) (left : Expr) :
    8 * s.rest.length + 6 ≤ steps → s.rest.length < bound →
      (operators steps nesting power left s).Finishes bound
  operand {s : State} {bound : Nat} (nesting : Nesting) :
    8 * s.rest.length + 1 ≤ steps → s.rest.length ≤ bound →
      (operand steps nesting s).Finishes bound
  handle {s : State} {bound : Nat} (nesting : Nesting) (pos : Position) :
    8 * s.rest.length + 2 ≤ steps → s.rest.length ≤ bound →
      (handle steps nesting pos s).Finishes bound
  elements {s : State} {bound : Nat} (close : Kind) (afterElement : Bool) :
    8 * s.rest.length + 3 ≤ steps → s.rest.length ≤ bound →
      (elements steps close afterElement s).Finishes bound
  postfixNode {s : State} {bound : Nat} (left : Expr) (operator : PostfixOperator)
    (pos : Position) : 8 * s.rest.length + 5 ≤ steps → s.rest.length ≤ bound →
      (operator = .transpose → ∃ token, s.peek = some token ∧ token.kind.isMark = true) →
        (postfixNode steps left operator pos s).Finishes bound
  arguments {s : State} {bound : Nat} (close : Kind) :
    8 * s.rest.length + 4 ≤ steps → s.rest.length ≤ bound →
      (arguments steps close s).Finishes bound
  argumentsFrom {s : State} {bound : Nat} (close : Kind) :
    8 * s.rest.length + 3 ≤ steps → s.rest.length ≤ bound →
      (argumentsFrom steps close s).Finishes bound

variable {steps bound : Nat} {s : State} {nesting : Nesting}

/-- The parameters behind an opening parenthesis are read within their steps. -/
theorem parametersFrom_finishes (enough : 8 * s.rest.length + 1 ≤ steps)
    (left : s.rest.length ≤ bound) : (parametersFrom steps s).Finishes bound := by
  induction steps generalizing s with
  | zero => omega
  | succ steps ih =>
    rw [parametersFrom_succ]
    cases declares : s.param? with
    | none => exact .failed
    | some param =>
      have shorter := State.length_next_of_param declares
      dsimp only
      split
      · next comma =>
        have shorter' := State.length_next_of_peekKind comma
        exact (ih (by omega) (by omega)).bind fun _ _ => .done
      · exact (Outcome.Finishes.expect .rightParen (by omega)).bind fun _ _ => .done

/-- A list of parameters is read within its steps. -/
theorem parameters_finishes (enough : 8 * s.rest.length + 1 ≤ steps)
    (left : s.rest.length ≤ bound) : (parameters steps s).Finishes bound := by
  rw [parameters_apply]
  refine (Outcome.Finishes.expect .leftParen (Nat.le_refl _)).bind fun _ s₁ shorter => ?_
  split
  · next close =>
    have shorter' := State.length_next_of_peekKind close
    exact .done (by omega)
  · exact parametersFrom_finishes (by omega) (by omega)

section Steps

variable (finishing : FinishingExpressions steps) (left : s.rest.length ≤ bound)
include finishing left

/-- An expression is read within its steps when its operands and operators are. -/
theorem expression_finishes (power : Nat) (enough : 8 * s.rest.length + 2 ≤ steps + 1) :
    (expression (steps + 1) nesting power s).Finishes bound := by
  rw [expression_succ]
  refine (finishing.operand nesting (by omega) (Nat.le_refl _)).bind fun whole s₁ shorter => ?_
  exact finishing.operators nesting power whole (by omega) (by omega)

omit left in
/-- Each operator takes its own token, so that the loop goes on with fewer tokens. -/
theorem operators_finishes (power : Nat) (whole : Expr) (left : s.rest.length < bound)
    (enough : 8 * s.rest.length + 6 ≤ steps + 1) :
    (operators (steps + 1) nesting power whole s).Finishes bound := by
  by_cases stops : s.Stops nesting power
  · rw [operators_of_stops stops]
    exact .done left
  obtain ⟨token, goes⟩ := Classical.not_forall.mp stops
  obtain ⟨known, goes⟩ := Classical.not_imp.mp goes
  obtain ⟨gap, power', entry, strong⟩ :
      s.atGap nesting = false ∧ ∃ left, token.kind.leftPower? = some left ∧ power ≤ left := by
    simpa using goes
  cases suffix : token.kind.postfixOperator? with
  | some operator =>
    obtain rfl : operator.leftPower = power' := by simpa [Kind.leftPower?, suffix] using entry
    have mark : operator = .transpose →
        ∃ token, s.peek = some token ∧ token.kind.isMark = true := by
      rintro rfl
      exact ⟨token, known, Kind.isMark_of_postfix_transpose suffix⟩
    rw [Parser.operators_of_postfix known gap suffix strong]
    refine (finishing.postfixNode whole operator token.pos (by omega) (Nat.le_refl _) mark).bind
      fun middle s₁ shorter => ?_
    exact finishing.operators nesting power middle (by omega) (by omega)
  | none =>
    obtain ⟨operator, infixes, rfl⟩ :
        ∃ operator, token.kind.infixOperator? = some operator ∧ operator.leftPower = power' := by
      simpa [Kind.leftPower?, suffix] using entry
    have shorter := State.length_next known
    rw [Parser.operators_of_infix known gap suffix infixes strong]
    refine (finishing.expression nesting _ (by omega) (Nat.le_refl _)).bind
      fun right s₁ shorter' => ?_
    exact finishing.operators nesting power _ (by omega) (by omega)

/-- An operand is read within its steps when what it encloses is. -/
theorem operand_finishes (enough : 8 * s.rest.length + 1 ≤ steps + 1) :
    (operand (steps + 1) nesting s).Finishes bound := by
  cases known : s.peek with
  | none =>
    rw [operand_of_end known]
    exact .failed
  | some token =>
    have shorter := State.length_next known
    have sign (operator : UnaryOperator) :
        ((expression steps nesting UnaryOperator.operandPower s.next).bind fun inner =>
          (pure (.unary operator inner token.pos) : Parser Expr)).Finishes bound :=
      (finishing.expression nesting _ (by omega) (by omega)).bind fun _ _ => .done
    have literal (close : Kind) (node : List (List Expr) → Position → Expr) :
        ((elements steps close false s.next).bind fun rest =>
          pure (node (rowsOf rest.1 rest.2) token.pos)).Finishes bound :=
      (finishing.elements close false (by omega) (by omega)).bind fun _ _ => .done
    rw [operand_of_peek known]
    cases token.kind with
    | ident =>
      refine .done ?_
      rw [State.note_rest]
      omega
    | number | string => exact .done (by omega)
    | endKeyword | colon =>
      dsimp only
      split
      · exact .done (by omega)
      · exact .failed
    | tilde =>
      dsimp only
      split
      · exact .done (by omega)
      · exact sign .not
    | minus => exact sign .minus
    | plus => exact sign .plus
    | atSign => exact finishing.handle nesting token.pos (by omega) (by omega)
    | leftParen =>
      refine (finishing.expression .group 0 (by omega) (Nat.le_refl _)).bind
        fun inner s₁ shorter' => ?_
      exact (Outcome.Finishes.expect .rightParen (by omega)).discard.andThen fun _ _ => .done
    | leftBracket => exact literal _ .matrix
    | leftBrace => exact literal _ .cell
    | _ => exact .failed

/-- A handle or an anonymous function is read within its steps when its body is. -/
theorem handle_finishes (pos : Position) (enough : 8 * s.rest.length + 2 ≤ steps + 1) :
    (handle (steps + 1) nesting pos s).Finishes bound := by
  cases known : s.peek with
  | none =>
    rw [handle_of_end known]
    exact .failed
  | some token =>
    have shorter := State.length_next known
    rw [handle_of_peek known]
    cases token.kind with
    | leftParen =>
      refine (parameters_finishes (by omega) (Nat.le_refl _)).bind fun params s₁ shorter' => ?_
      exact (finishing.expression nesting _ (by omega) (by omega)).andThen fun _ _ => .done
    | ident => exact .done (by omega)
    | _ => exact .failed

/-- The elements of a literal are read within their steps when each of them is. -/
theorem elements_finishes (close : Kind) (afterElement : Bool)
    (enough : 8 * s.rest.length + 3 ≤ steps + 1) :
    (elements (steps + 1) close afterElement s).Finishes bound := by
  cases known : s.peekKind with
  | none =>
    rw [elements_of_end known]
    exact .failed
  | some kind =>
    have shorter := State.length_next_of_peekKind known
    rw [elements_of_peekKind known]
    split
    · exact .done (by omega)
    split
    · exact (finishing.elements close false (by omega) (by omega)).bind fun _ _ => .done
    split
    · split
      · exact finishing.elements close false (by omega) (by omega)
      · exact .failed
    · refine (finishing.expression .elements 0 (by omega) (Nat.le_refl _)).bind
        fun first s₁ shorter' => ?_
      exact (finishing.elements close true (by omega) (by omega)).andThen fun _ _ => .done

/-- A postfix operator is read within its steps. A transpose takes a mark, so that it goes on too.
-/
theorem postfixNode_finishes (whole : Expr) (operator : PostfixOperator) (pos : Position)
    (mark : operator = .transpose → ∃ token, s.peek = some token ∧ token.kind.isMark = true)
    (enough : 8 * s.rest.length + 5 ≤ steps + 1) :
    (postfixNode (steps + 1) whole operator pos s).Finishes bound := by
  have order := s.length_next_le
  rw [postfixNode_succ]
  cases operator with
  | call => exact (finishing.arguments _ (by omega) (by omega)).bind fun _ _ => .done
  | cellIndex => exact (finishing.arguments _ (by omega) (by omega)).bind fun _ _ => .done
  | transpose =>
    obtain ⟨token, known, isMark⟩ := mark rfl
    have shorter := State.length_skip_isMark known isMark
    exact .done (by omega)
  | field =>
    cases known : s.next.peek with
    | none => exact .failed
    | some token =>
      have shorter := State.length_next known
      dsimp only
      cases token.kind with
      | ident => exact .done (by omega)
      | leftParen =>
        refine (finishing.expression .group 0 (by omega) (Nat.le_refl _)).bind
          fun name s₁ shorter' => ?_
        exact (Outcome.Finishes.expect .rightParen (by omega)).discard.andThen fun _ _ => .done
      | _ => exact .failed

/-- Arguments are read within their steps when those of a list that is not empty are. -/
theorem arguments_finishes (close : Kind) (enough : 8 * s.rest.length + 4 ≤ steps + 1) :
    (arguments (steps + 1) close s).Finishes bound := by
  rw [arguments_succ]
  split
  · next here =>
    have shorter := State.length_next_of_peekKind here
    exact .done (by omega)
  · exact finishing.argumentsFrom close (by omega) left

/-- A list of arguments is read within its steps when its first one and the rest are. -/
theorem argumentsFrom_finishes (close : Kind) (enough : 8 * s.rest.length + 3 ≤ steps + 1) :
    (argumentsFrom (steps + 1) close s).Finishes bound := by
  rw [argumentsFrom_succ]
  refine (finishing.expression .group 0 (by omega) (Nat.le_refl _)).bind fun first s₁ shorter => ?_
  split
  · next comma =>
    have shorter' := State.length_next_of_peekKind comma
    exact (finishing.argumentsFrom close (by omega) (by omega)).bind fun _ _ => .done
  · exact (Outcome.Finishes.expect close (by omega)).bind fun _ _ => .done

end Steps

/-- No function of the parser of expressions exhausts enough steps. -/
theorem finishingExpressions (steps : Nat) : FinishingExpressions steps := by
  induction steps with
  | zero =>
    constructor <;> intros <;> omega
  | succ steps finishing =>
    exact {
      expression := fun _ power enough left => expression_finishes finishing left power enough
      operators := fun _ power whole enough left =>
        operators_finishes finishing power whole left enough
      operand := fun _ enough left => operand_finishes finishing left enough
      handle := fun _ pos enough left => handle_finishes finishing left pos enough
      elements := fun close afterElement enough left =>
        elements_finishes finishing left close afterElement enough
      postfixNode := fun whole operator pos enough left mark =>
        postfixNode_finishes finishing left whole operator pos mark enough
      arguments := fun close enough left => arguments_finishes finishing left close enough
      argumentsFrom := fun close enough left => argumentsFrom_finishes finishing left close enough }

end Parser

end MatlabFront
