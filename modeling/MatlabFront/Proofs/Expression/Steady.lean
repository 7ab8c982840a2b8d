import MatlabFront.Proofs.Parser.Steady
import MatlabFront.Proofs.Expression.Grammar

/-!
# Expressions go on and look ahead two tokens

Every function of the parser of expressions is steady, and so is the same function with more steps
against it. There is one lemma for each function, which follows its text, and induction on the steps
puts them together.
-/

namespace MatlabFront.Parser

namespace Steady

variable {bounded : Prop}

/-- Asking whether a colon is a whole subscript is steady. -/
theorem colonStandsAlone (nesting : Nesting) :
    Steady bounded (Parser.colonStandsAlone nesting) (Parser.colonStandsAlone nesting) :=
  secondKind.bind fun kind => by
    split <;> exact .pure _

/-- Asking whether a tilde is an output to ignore is steady. -/
theorem tildeStandsAlone (nesting : Nesting) :
    Steady bounded (Parser.tildeStandsAlone nesting) (Parser.tildeStandsAlone nesting) :=
  secondKind.bind fun kind => by
    split <;> exact .pure _

/-- A run of transpose marks ends where the index is not reached, so its text is decided. -/
theorem transposeMarks : Steady bounded Parser.transposeMarks Parser.transposeMarks := by
  refine of_done State.marks (·.skip Kind.isMark) (fun _ => rfl)
    (fun s => (State.Reaches.refl s).skip _) fun _ _ s s' agrees room => ?_
  obtain ⟨taken, behind⟩ := agrees.skip Kind.isMark (by omega)
  exact ⟨by rw [State.marks, taken, State.marks], behind⟩

end Steady

/-- Each function of the parser of expressions is steady against itself with more steps. -/
structure SteadyExpressions (bounded : Prop) (steps more : Nat) : Prop where
  expression (nesting : Nesting) (power : Nat) :
    Steady bounded (expression steps nesting power) (expression more nesting power)
  operators (nesting : Nesting) (power : Nat) (left : Expr) :
    Steady bounded (operators steps nesting power left) (operators more nesting power left)
  operand (nesting : Nesting) : Steady bounded (operand steps nesting) (operand more nesting)
  handle (nesting : Nesting) (pos : Position) :
    Steady bounded (handle steps nesting pos) (handle more nesting pos)
  elements (close : Kind) (afterElement : Bool) :
    Steady bounded (elements steps close afterElement) (elements more close afterElement)
  postfixNode (left : Expr) (operator : PostfixOperator) (pos : Position) :
    Steady bounded (postfixNode steps left operator pos) (postfixNode more left operator pos)
  arguments (close : Kind) : Steady bounded (arguments steps close) (arguments more close)
  argumentsFrom (close : Kind) :
    Steady bounded (argumentsFrom steps close) (argumentsFrom more close)

variable {bounded : Prop} {steps more : Nat}

/-- A list of parameters is read in the same way with more steps. -/
theorem parametersFrom_steady (enough : steps ≤ more) :
    Steady bounded (parametersFrom steps) (parametersFrom more) := by
  induction steps generalizing more with
  | zero => exact .exhausted
  | succ steps ih =>
    obtain ⟨more, rfl⟩ := Nat.exists_eq_succ_of_ne_zero (Nat.ne_zero_of_lt enough)
    have later := ih (Nat.le_of_succ_le_succ enough)
    rw [parametersFrom, parametersFrom]
    have rest (param : Param) : Steady bounded
        (do
          if ← consume .comma then return param :: (← parametersFrom steps)
          else
            discard (expect .rightParen)
            return [param] : Parser (List Param))
        (do
          if ← consume .comma then return param :: (← parametersFrom more)
          else
            discard (expect .rightParen)
            return [param]) := by
      refine .bind (.consume .comma) fun _ => ?_
      split
      · exact later.bind fun _ => .pure _
      · exact (Steady.expect .rightParen).discard.bind fun _ => .pure _
    refine .bind .peek fun found => ?_
    cases found with
    | none => exact .bind .expectDeclared fun _ => .bind (.pure _) rest
    | some token =>
      dsimp only
      split
      · exact .bind .advance fun _ => .bind (.pure _) rest
      · exact .bind .expectDeclared fun _ => .bind (.pure _) rest

/-- Parameters are read in the same way with more steps. -/
theorem parameters_steady (enough : steps ≤ more) :
    Steady bounded (parameters steps) (parameters more) := by
  refine (Steady.expect .leftParen).discard.bind fun _ => .bind (.consume .rightParen) fun _ => ?_
  split
  · exact .pure _
  · exact parametersFrom_steady enough

section Steps

variable (steady : SteadyExpressions bounded steps more)
include steady

/-- An expression is steady when its operands and operators are with a step less. -/
theorem expression_steady (nesting : Nesting) (power : Nat) :
    Steady bounded (expression (steps + 1) nesting power) (expression (more + 1) nesting power) := by
  rw [expression, expression]
  exact (steady.operand nesting).bind fun left => steady.operators nesting power left

/-- The loop of the operators is steady when its rounds are with a step less. -/
theorem operators_steady (nesting : Nesting) (power : Nat) (left : Expr) :
    Steady bounded (operators (steps + 1) nesting power left)
      (operators (more + 1) nesting power left) := by
  rw [operators, operators]
  refine .bind .peek fun found => ?_
  cases found with
  | none => exact .pure left
  | some token =>
    refine .bind (.atNewElement nesting) fun gap => ?_
    split
    · exact .pure left
    cases token.kind.postfixOperator? with
    | some operator =>
      dsimp only
      split
      · exact .pure left
      · exact (steady.postfixNode left operator token.pos).bind fun whole =>
          steady.operators nesting power whole
    | none =>
      cases token.kind.infixOperator? with
      | none => exact .pure left
      | some operator =>
        dsimp only
        split
        · exact .pure left
        · exact .bind .advance fun _ => (steady.expression nesting _).bind fun right =>
            steady.operators nesting power _

/-- An operand is steady when the phrases within it are with a step less. -/
theorem operand_steady (nesting : Nesting) :
    Steady bounded (operand (steps + 1) nesting) (operand (more + 1) nesting) := by
  rw [operand, operand]
  refine .bind .peek fun found => ?_
  cases found with
  | none => exact .complain _
  | some token =>
    have leaf (leaf : Expr) : Steady bounded (do advance; return leaf : Parser Expr)
        (do advance; return leaf) := .bind .advance fun _ => .pure leaf
    have sign (operator : UnaryOperator) : Steady bounded
        (do
          advance
          return .unary operator (← expression steps nesting UnaryOperator.operandPower) token.pos :
          Parser Expr)
        (do
          advance
          return .unary operator (← expression more nesting UnaryOperator.operandPower) token.pos) :=
      .bind .advance fun _ => (steady.expression nesting _).bind fun _ => .pure _
    dsimp only
    cases token.kind with
    | ident => exact .bind .advance fun _ => .bind (.used token) fun _ => .pure _
    | number | string => exact leaf _
    | endKeyword =>
      dsimp only
      split
      · exact leaf _
      · exact .complain _
    | colon =>
      refine .bind (.colonStandsAlone nesting) fun alone => ?_
      split
      · exact leaf _
      · exact .complain _
    | tilde =>
      refine .bind (.tildeStandsAlone nesting) fun alone => ?_
      split
      · exact leaf _
      · exact sign .not
    | minus => exact sign .minus
    | plus => exact sign .plus
    | atSign => exact .bind .advance fun _ => steady.handle nesting token.pos
    | leftParen =>
      exact .bind .advance fun _ => (steady.expression .group 0).bind fun inner =>
        (Steady.expect .rightParen).discard.bind fun _ => .pure _
    | leftBracket | leftBrace =>
      exact .bind .advance fun _ => (steady.elements _ false).bind fun _ => .pure _
    | _ => exact .complain _

/-- A handle or an anonymous function is steady when its body is with a step less. -/
theorem handle_steady (enough : steps ≤ more) (nesting : Nesting) (pos : Position) :
    Steady bounded (handle (steps + 1) nesting pos) (handle (more + 1) nesting pos) := by
  rw [handle, handle]
  refine .bind .peek fun found => ?_
  cases found with
  | none => exact .complain _
  | some token =>
    dsimp only
    cases token.kind with
    | leftParen =>
      exact (parameters_steady enough).bind fun params =>
        (steady.expression nesting _).bind fun body => .pure _
    | ident => exact .bind .advance fun _ => .pure _
    | _ => exact .complain _

/-- The elements of a literal are steady when each of them is with a step less. -/
theorem elements_steady (close : Kind) (afterElement : Bool) :
    Steady bounded (elements (steps + 1) close afterElement)
      (elements (more + 1) close afterElement) := by
  rw [elements, elements]
  refine .bind .peekKind fun found => ?_
  cases found with
  | none => exact .complain _
  | some kind =>
    dsimp only
    split
    · exact .bind .advance fun _ => .pure _
    split
    · exact .bind .advance fun _ => (steady.elements close false).bind fun _ => .pure _
    split
    · split
      · exact .bind .advance fun _ => steady.elements close false
      · exact .complain _
    · exact (steady.expression .elements 0).bind fun element =>
        (steady.elements close true).bind fun _ => .pure _

/-- A postfix operator is steady when what it encloses is with a step less. -/
theorem postfixNode_steady (left : Expr) (operator : PostfixOperator) (pos : Position) :
    Steady bounded (postfixNode (steps + 1) left operator pos)
      (postfixNode (more + 1) left operator pos) := by
  cases operator with
  | call =>
    rw [postfixNode, postfixNode]
    exact .bind .advance fun _ => (steady.arguments _).bind fun _ => .pure _
  | cellIndex =>
    rw [postfixNode, postfixNode]
    exact .bind .advance fun _ => (steady.arguments _).bind fun _ => .pure _
  | transpose =>
    rw [postfixNode, postfixNode]
    exact .bind .transposeMarks fun _ => .pure _
  | field =>
    rw [postfixNode, postfixNode]
    refine .bind .advance fun _ => .bind .peek fun found => ?_
    cases found with
    | none => exact .complain _
    | some token =>
      dsimp only
      cases token.kind with
      | ident => exact .bind .advance fun _ => .pure _
      | leftParen =>
        exact .bind .advance fun _ => (steady.expression .group 0).bind fun name =>
          (Steady.expect .rightParen).discard.bind fun _ => .pure _
      | _ => exact .complain _

/-- Arguments are steady when a list that is not empty is with a step less. -/
theorem arguments_steady (close : Kind) :
    Steady bounded (arguments (steps + 1) close) (arguments (more + 1) close) := by
  rw [arguments, arguments]
  refine .bind (.consume close) fun _ => ?_
  split
  · exact .pure _
  · exact steady.argumentsFrom close

/-- A list of arguments is steady when its first one and the rest are with a step less. -/
theorem argumentsFrom_steady (close : Kind) :
    Steady bounded (argumentsFrom (steps + 1) close) (argumentsFrom (more + 1) close) := by
  rw [argumentsFrom, argumentsFrom]
  refine (steady.expression .group 0).bind fun first => .bind (.consume .comma) fun _ => ?_
  split
  · exact (steady.argumentsFrom close).bind fun _ => .pure _
  · exact (Steady.expect close).discard.bind fun _ => .pure _

end Steps

/-- Expressions are steady, with every number of steps and against every greater one. -/
theorem steadyExpressions (enough : steps ≤ more) : SteadyExpressions bounded steps more := by
  induction steps generalizing more with
  | zero =>
    exact {
      expression := fun _ _ => .exhausted
      operators := fun _ _ _ => .exhausted
      operand := fun _ => .exhausted
      handle := fun _ _ => .exhausted
      elements := fun _ _ => .exhausted
      postfixNode := fun _ _ _ => .exhausted
      arguments := fun _ => .exhausted
      argumentsFrom := fun _ => .exhausted }
  | succ steps ih =>
    obtain ⟨more, rfl⟩ := Nat.exists_eq_succ_of_ne_zero (Nat.ne_zero_of_lt enough)
    have enough := Nat.le_of_succ_le_succ enough
    have steady := ih enough
    exact {
      expression := expression_steady steady
      operators := operators_steady steady
      operand := operand_steady steady
      handle := handle_steady steady enough
      elements := elements_steady steady
      postfixNode := postfixNode_steady steady
      arguments := arguments_steady steady
      argumentsFrom := argumentsFrom_steady steady }

end MatlabFront.Parser
