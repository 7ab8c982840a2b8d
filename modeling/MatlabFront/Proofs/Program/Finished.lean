import MatlabFront.Proofs.Expression.Finished
import MatlabFront.Proofs.Program.Length

/-!
# Programs are read within their steps

As for expressions, eight steps for each token left and a few more are enough for every function of
the parser of statements and functions. The loops that go on behind a statement, a case or a
function have taken it first.
-/

namespace MatlabFront

open Surface

namespace Outcome.Finishes

variable {s : State} {bound : Nat}

/-- Using a name takes no token. -/
theorem used (token : Token) (left : s.rest.length < bound) :
    (Parser.used token s).Finishes bound := by
  rw [Parser.used_apply]
  exact .done (by rwa [State.note_rest])

/-- A report takes no token. -/
theorem report (event : Event) (left : s.rest.length < bound) :
    (Parser.report event s).Finishes bound := .done left

/-- A name that is demanded and used is a token less. -/
theorem expectUsed (left : s.rest.length ≤ bound) : (Parser.expectUsed s).Finishes bound :=
  (expect .ident left).andThen fun token _ shorter => used token shorter

/-- A name that is demanded and declared is a token less. -/
theorem expectDeclared (left : s.rest.length ≤ bound) :
    (Parser.expectDeclared s).Finishes bound :=
  (expect .ident left).andThen fun _ _ => .done

/-- A demand for a separator takes no token. -/
theorem expectSeparator (clause : Clause) (left : s.rest.length < bound) :
    (Parser.expectSeparator clause s).Finishes bound := by
  rw [Parser.expectSeparator_apply]
  split
  · exact .done left
  · exact .failed

/-- The keyword that closes a block is a token less. -/
theorem expectEnd (block : Block) (left : s.rest.length ≤ bound) :
    (Parser.expectEnd block s).Finishes bound := (expectOr _ _ left).discard

/-- A statement that is made or refused takes no token. -/
theorem assigned {whole value : Expr} {pos : Position} (left : s.rest.length < bound) :
    (Parser.ofExcept (Assignment.statement whole value pos) s).Finishes bound := by
  unfold Parser.ofExcept
  split
  · exact .done left
  · exact .failed

end Outcome.Finishes

namespace Parser

variable {dialect : Dialect} {steps bound : Nat} {s : State}

/-- Turning the words of `load` into targets takes no token. -/
theorem loadTargets_finishes {fallback : Position} {words : List (List Token)}
    (left : s.rest.length < bound) : (loadTargets fallback words s).Finishes bound := by
  induction words generalizing s with
  | nil => exact .done left
  | cons word words ih =>
    have rest (target : Target) (s : State) (left : s.rest.length < bound) :
        ((do return target :: (← loadTargets fallback words) : Parser (List Target)) s).Finishes
          bound := (ih left).andThen fun _ _ => .done
    match word with
    | [] | _ :: _ :: _ => exact .failed
    | [token] =>
      by_cases name : token.kind = .ident
      · simp only [loadTargets, if_pos name]
        exact (Outcome.Finishes.used token left).andThen fun used s₁ left => rest (.var used) s₁ left
      · simp only [loadTargets, if_neg name]
        exact .failed

/-- A command takes its name. -/
theorem command_finishes (left : s.rest.length ≤ bound) : (command s).Finishes bound := by
  refine (Outcome.Finishes.expectUsed left).andThen fun callee s₁ shorter => ?_
  have words : (commandWords s₁).Finishes bound := by
    rw [commandWords_apply]
    refine .done ?_
    have flat := congrArg List.length (Command.words_flatten s₁.rest)
    rw [List.length_append] at flat
    dsimp only
    omega
  refine words.andThen fun found s₂ shorter => ?_
  refine (Outcome.Finishes.report _ shorter).andThen fun _ s₃ shorter => ?_
  match found with
  | [] | [_] => exact .done shorter
  | file :: target :: more =>
    dsimp only
    split
    · exact (loadTargets_finishes shorter).andThen fun _ _ => .done
    · exact .done shorter

/-- An expression outside of all brackets is read within its steps. -/
theorem wholeExpression_finishes (enough : 8 * s.rest.length + 2 ≤ steps)
    (left : s.rest.length ≤ bound) : (wholeExpression steps s).Finishes bound :=
  (finishingExpressions steps).expression .outside 0 enough left

/-- Resynchronising ends, since it reads on in one go. -/
theorem resynchronize_finishes (left : s.rest.length < bound) :
    (resynchronize dialect s).Finishes bound := by
  rw [resynchronize_apply]
  cases dialect with
  | strict => exact .failed
  | matlab =>
    have order := (State.Reaches.refl s).resume.length_le
    exact .done (by omega)

/-- The condition of an `if` is read within its steps, with what is skipped behind it. -/
theorem ifCondition_finishes (enough : 8 * s.rest.length + 2 ≤ steps)
    (left : s.rest.length ≤ bound) : (ifCondition steps dialect s).Finishes bound := by
  rw [ifCondition_apply]
  refine (wholeExpression_finishes enough left).bind fun condition s₁ shorter => ?_
  split
  · exact .done shorter
  · exact (resynchronize_finishes shorter).bind fun _ _ => .done

/-- An assignment or expression is read within its steps. -/
theorem assignmentOrExpression_finishes (enough : 8 * s.rest.length + 2 ≤ steps)
    (left : s.rest.length ≤ bound) : (assignmentOrExpression steps s).Finishes bound := by
  rw [assignmentOrExpression_apply]
  refine (wholeExpression_finishes enough (Nat.le_refl _)).bind fun whole s₁ shorter => ?_
  cases known : s₁.peek with
  | none => exact .done (by omega)
  | some token =>
    have shorter' := State.length_next known
    dsimp only
    split
    · exact (wholeExpression_finishes (by omega) (Nat.le_refl _)).bind
        fun value s₂ shorter'' => .assigned (by omega)
    · exact .done (by omega)

/-- A statement without a keyword is read within its steps. -/
theorem plainStatement_finishes (enough : 8 * s.rest.length + 2 ≤ steps)
    (left : s.rest.length ≤ bound) : (plainStatement steps dialect s).Finishes bound := by
  rw [plainStatement_apply]
  cases dialect with
  | strict => exact assignmentOrExpression_finishes enough left
  | matlab =>
    dsimp only
    split
    · exact command_finishes left
    · exact assignmentOrExpression_finishes enough left

/-- The names that come next are read within their steps. -/
theorem namesFrom_finishes (enough : 8 * s.rest.length + 1 ≤ steps)
    (left : s.rest.length < bound) : (namesFrom steps s).Finishes bound := by
  induction steps generalizing s with
  | zero => omega
  | succ steps ih =>
    rw [namesFrom_succ]
    split
    · refine (Outcome.Finishes.expectUsed (Nat.le_refl _)).bind fun name s₁ shorter => ?_
      exact (ih (by omega) (by omega)).andThen fun _ _ => .done
    · exact .done left

/-- The names of a `global` are read within their steps. -/
theorem globalNames_finishes (enough : 8 * s.rest.length + 1 ≤ steps)
    (left : s.rest.length ≤ bound) : (globalNames steps s).Finishes bound := by
  refine (Outcome.Finishes.expectUsed (Nat.le_refl _)).andThen fun first s₁ shorter => ?_
  exact (namesFrom_finishes (by omega) (by omega)).andThen fun _ _ => .done

/-- The header of a `for` is read within its steps. -/
theorem forHeader_finishes (enough : 8 * s.rest.length + 2 ≤ steps)
    (left : s.rest.length ≤ bound) : (forHeader steps s).Finishes bound := by
  have opened : (if s.headerEnclosed then s.next else s).rest.length ≤ s.rest.length := by
    split
    · exact s.length_next_le
    · exact Nat.le_refl _
  rw [forHeader_apply]
  refine (Outcome.Finishes.expectUsed opened).bind fun var s₁ shorter => ?_
  refine (Outcome.Finishes.expect .assign (Nat.le_refl _)).discard.andThen fun _ s₂ shorter' => ?_
  refine (wholeExpression_finishes (by omega) (Nat.le_refl _)).andThen fun range s₃ shorter'' => ?_
  have separated (s : State) (left : s.rest.length < bound) :
      ((do expectSeparator .forHeader; return (var, range) : Parser (Ident × Expr)) s).Finishes
        bound := (Outcome.Finishes.expectSeparator _ left).andThen fun _ _ => .done
  split
  · exact (Outcome.Finishes.expect .rightParen (Nat.le_refl _)).discard.andThen
      fun _ s₄ closed => separated s₄ (by omega)
  · exact separated s₃ (by omega)

/-- Enough steps for each function of the parser of statements. A statement takes a token; a block
and what follows the first body of an `if` or a switch can be empty. -/
structure FinishingStatements (dialect : Dialect) (steps : Nat) : Prop where
  block {s : State} {bound : Nat} (ends : Kind → Bool) : 8 * s.rest.length + 5 ≤ steps →
    s.rest.length < bound → (block steps dialect ends s).Finishes bound
  statement {s : State} {bound : Nat} : 8 * s.rest.length + 4 ≤ steps →
    s.rest.length ≤ bound → (statement steps dialect s).Finishes bound
  openStatement {s : State} {bound : Nat} : 8 * s.rest.length + 3 ≤ steps →
    s.rest.length ≤ bound → (openStatement steps dialect s).Finishes bound
  elseBranch {s : State} {bound : Nat} : 8 * s.rest.length + 1 ≤ steps →
    s.rest.length < bound → (elseBranch steps dialect s).Finishes bound
  cases {s : State} {bound : Nat} : 8 * s.rest.length + 1 ≤ steps →
    s.rest.length < bound → (cases steps dialect s).Finishes bound

section Steps

variable (finishing : FinishingStatements dialect steps)
include finishing

/-- A block goes on behind a statement, which has taken a token. -/
theorem block_finishes (ends : Kind → Bool) (enough : 8 * s.rest.length + 5 ≤ steps + 1)
    (left : s.rest.length < bound) : (block (steps + 1) dialect ends s).Finishes bound := by
  have skipped := s.length_skipSeparators
  rw [block_succ]
  cases s.skipSeparators.peekKind with
  | none => exact .done (by omega)
  | some kind =>
    dsimp only
    split
    · exact .done (by omega)
    split
    · exact .failed
    split
    · exact .failed
    · refine (finishing.statement (by omega) (Nat.le_refl _)).bind fun first s₁ shorter => ?_
      exact (finishing.block ends (by omega) (by omega)).andThen fun _ _ => .done

/-- A statement with what ends it is read within its steps when the statement is. -/
theorem statement_finishes (enough : 8 * s.rest.length + 4 ≤ steps + 1)
    (left : s.rest.length ≤ bound) : (statement (steps + 1) dialect s).Finishes bound := by
  rw [statement_succ]
  refine (finishing.openStatement (by omega) left).bind fun statements s₁ shorter => ?_
  split
  · exact .done shorter
  · exact .failed

/-- What stands behind the subject of a switch is read within its steps when its cases are. -/
theorem switch_finishes {subject : Expr} (enough : 8 * s.rest.length + 1 ≤ steps)
    (left : s.rest.length < bound) :
    ((do
      expectSeparator .switchSubject
      let chain ← cases steps dialect
      expectEnd .switchBlock
      match chain.1 with
      | [] => pure ()
      | first :: _ => report (.switchLowered first.pos.line)
      return (CaseChain.lower subject (.ofClauses chain.1 chain.2)).statements :
      Parser (List Stmt)) s).Finishes bound := by
  refine (Outcome.Finishes.expectSeparator _ (Nat.lt_succ_self _)).andThen fun _ s₁ shorter => ?_
  refine (finishing.cases (by omega) shorter).andThen fun chain s₂ shorter' => ?_
  refine (Outcome.Finishes.expectEnd _ (Nat.le_refl _)).andThen fun _ s₃ shorter'' => ?_
  obtain ⟨_ | ⟨first, clauses⟩, otherwise⟩ := chain
  · exact .done (by omega)
  · have fewer : s₃.rest.length < bound := by omega
    exact .done fewer

/-- A statement is read within its steps when its blocks are. -/
theorem openStatement_finishes (enough : 8 * s.rest.length + 3 ≤ steps + 1)
    (left : s.rest.length ≤ bound) : (openStatement (steps + 1) dialect s).Finishes bound := by
  by_cases starts : startsPlain s.peekKind = true
  · rw [openStatement_of_plain starts]
    exact (plainStatement_finishes (by omega) left).bind fun _ _ => .done
  cases known : s.peek with
  | none => exact absurd (by rw [State.peekKind_of_end known]; rfl) starts
  | some token =>
    have shorter := State.length_next known
    rw [State.peekKind_of_peek known] at starts
    have ended {α : Type} {block : Block} {value : α} (s : State) (left : s.rest.length < bound) :
        ((do expectEnd block; return value : Parser α) s).Finishes bound :=
      (Outcome.Finishes.expectEnd _ (Nat.le_of_lt left)).andThen fun _ _ => .done
    rw [openStatement_of_peek known]
    cases kind : token.kind with
    | ifKeyword =>
      refine (ifCondition_finishes (by omega) (Nat.le_refl _)).bind fun condition s₁ first => ?_
      refine (finishing.block _ (by omega) first).andThen fun body s₂ second => ?_
      refine (finishing.elseBranch (by omega) second).andThen fun otherwise s₃ third => ?_
      exact ended s₃ (by omega)
    | whileKeyword =>
      refine (wholeExpression_finishes (by omega) (Nat.le_refl _)).bind
        fun condition s₁ first => ?_
      refine (Outcome.Finishes.expectSeparator _ first).andThen fun _ s₂ second => ?_
      refine (finishing.block _ (by omega) second).andThen fun body s₃ third => ?_
      exact ended s₃ (by omega)
    | forKeyword =>
      refine (forHeader_finishes (by omega) (Nat.le_refl _)).bind fun head s₁ first => ?_
      refine (finishing.block _ (by omega) first).andThen fun body s₂ second => ?_
      exact ended s₂ (by omega)
    | switchKeyword =>
      refine (wholeExpression_finishes (by omega) (Nat.le_refl _)).bind fun subject s₁ first => ?_
      exact switch_finishes finishing (by omega) (by omega)
    | tryKeyword =>
      refine (finishing.block _ (by omega) (Nat.lt_succ_self _)).bind fun body s₁ first => ?_
      simp only [bind_apply, consume_apply]
      split
      · next catches =>
        have caught := State.length_next_of_peekKind catches
        refine (finishing.block _ (by omega) (Nat.lt_succ_self _)).bind fun handler s₂ second => ?_
        exact ended s₂ (by omega)
      · exact ended s₁ (by omega)
    | globalKeyword =>
      exact (globalNames_finishes (by omega) (by omega)).bind fun _ _ => .done
    | breakKeyword | continueKeyword | returnKeyword => exact .done (by omega)
    | _ => exact absurd (by rw [kind]; rfl) starts

/-- What follows the body of an `if` is read within its steps when its blocks are. -/
theorem elseBranch_finishes (enough : 8 * s.rest.length + 1 ≤ steps + 1)
    (left : s.rest.length < bound) : (elseBranch (steps + 1) dialect s).Finishes bound := by
  cases known : s.peek with
  | none =>
    have ended := State.peekKind_of_end known
    rw [elseBranch_of_ne (by simp [ended]) (by simp [ended])]
    exact .done left
  | some token =>
    have shorter := State.length_next known
    rw [elseBranch_of_peek known]
    cases token.kind with
    | elseIfKeyword =>
      refine (wholeExpression_finishes (by omega) (Nat.le_refl _)).bind
        fun condition s₁ first => ?_
      refine (Outcome.Finishes.expectSeparator _ first).andThen fun _ s₂ second => ?_
      refine (finishing.block _ (by omega) second).andThen fun body s₃ third => ?_
      exact (finishing.elseBranch (by omega) (by omega)).andThen fun _ _ => .done
    | elseKeyword => exact (finishing.block _ (by omega) (by omega)).bind fun _ _ => .done
    | _ => exact .done left

/-- The cases go on behind a case, whose keyword is a token. -/
theorem cases_finishes (enough : 8 * s.rest.length + 1 ≤ steps + 1)
    (left : s.rest.length < bound) : (cases (steps + 1) dialect s).Finishes bound := by
  have skipped := s.length_skipSeparators
  cases known : s.skipSeparators.peek with
  | none =>
    have ended := State.peekKind_of_end known
    rw [cases_of_ne (by simp [ended]) (by simp [ended])]
    exact .done (by omega)
  | some token =>
    have shorter := State.length_next known
    rw [cases_of_peek known]
    cases token.kind with
    | caseKeyword =>
      refine (wholeExpression_finishes (by omega) (Nat.le_refl _)).bind fun value s₁ first => ?_
      refine (Outcome.Finishes.expectSeparator _ first).andThen fun _ s₂ second => ?_
      refine (finishing.block _ (by omega) second).andThen fun body s₃ third => ?_
      exact (finishing.cases (by omega) (by omega)).andThen fun _ _ => .done
    | otherwiseKeyword => exact (finishing.block _ (by omega) (by omega)).bind fun _ _ => .done
    | _ => exact .done (by omega)

end Steps

/-- No function of the parser of statements exhausts enough steps. -/
theorem finishingStatements (dialect : Dialect) (steps : Nat) :
    FinishingStatements dialect steps := by
  induction steps with
  | zero =>
    constructor <;> intros <;> omega
  | succ steps finishing =>
    exact {
      block := fun ends enough left => block_finishes finishing ends enough left
      statement := fun enough left => statement_finishes finishing enough left
      openStatement := fun enough left => openStatement_finishes finishing enough left
      elseBranch := fun enough left => elseBranch_finishes finishing enough left
      cases := fun enough left => cases_finishes finishing enough left }

/-- Outputs in brackets are read within their steps. -/
theorem bracketedOutputs_finishes (enough : 8 * s.rest.length + 1 ≤ steps)
    (left : s.rest.length ≤ bound) : (bracketedOutputs steps s).Finishes bound := by
  induction steps generalizing s with
  | zero => omega
  | succ steps ih =>
    rw [bracketedOutputs_succ]
    split
    · next close =>
      have shorter := State.length_next_of_peekKind close
      exact .done (by omega)
    split
    · next comma =>
      have shorter := State.length_next_of_peekKind comma
      exact ih (by omega) (by omega)
    · refine (Outcome.Finishes.expectDeclared (Nat.le_refl _)).bind fun name s₁ shorter => ?_
      exact (ih (by omega) (by omega)).andThen fun _ _ => .done

/-- The outputs of a function are read within their steps. -/
theorem functionOutputs_finishes (enough : 8 * s.rest.length + 1 ≤ steps)
    (left : s.rest.length < bound) : (functionOutputs steps s).Finishes bound := by
  rw [functionOutputs_apply]
  split
  · next opens =>
    have shorter := State.length_next_of_peekKind opens
    refine (bracketedOutputs_finishes (by omega) (Nat.le_refl _)).bind fun outputs s₁ first => ?_
    exact (Outcome.Finishes.expect .assign (by omega)).discard.andThen fun _ _ => .done
  split
  · refine (Outcome.Finishes.expectDeclared (Nat.le_refl _)).bind fun output s₁ shorter => ?_
    have order := s₁.length_next_le
    exact .done (by omega)
  · exact .done left

/-- The head of a function takes its name. -/
theorem functionHead_finishes {pos : Position} (enough : 8 * s.rest.length + 1 ≤ steps)
    (left : s.rest.length ≤ bound) : (functionHead steps pos s).Finishes bound := by
  rw [functionHead_apply]
  refine (functionOutputs_finishes enough (Nat.lt_succ_self _)).bind fun outputs s₁ first => ?_
  refine (Outcome.Finishes.expectDeclared (Nat.le_refl _)).bind fun name s₂ second => ?_
  have params : (if s₂.peekKind = some .leftParen then parameters steps s₂
      else .done [] s₂).Finishes bound := by
    split
    · exact parameters_finishes (by omega) (by omega)
    · exact .done (by omega)
  exact params.bind fun _ _ => .done

/-- A function is read within its steps. -/
theorem function_finishes {pos : Position} (enough : 8 * s.rest.length + 1 ≤ steps)
    (left : s.rest.length ≤ bound) : (function steps dialect pos s).Finishes bound := by
  rw [function_apply]
  refine (functionHead_finishes enough (Nat.le_refl _)).bind fun head s₁ first => ?_
  have inside : (s₁.enter head).rest.length < s.rest.length := first
  refine ((finishingStatements dialect steps).block _ (by omega) inside).bind
    fun body s₂ second => ?_
  have order := (State.Reaches.refl s₂).leave.length_le
  refine .done ?_
  rw [State.log_rest]
  omega

/-- The top of a program goes on behind a statement or a function, which has taken a token. -/
theorem topLevel_finishes (enough : 8 * s.rest.length + 5 ≤ steps)
    (left : s.rest.length < bound) : (topLevel steps dialect s).Finishes bound := by
  induction steps generalizing s with
  | zero => omega
  | succ steps ih =>
    have skipped := s.length_skipSeparators
    rw [topLevel_succ]
    cases known : s.skipSeparators.peek with
    | none => exact .done (by omega)
    | some token =>
      have shorter := State.length_next known
      dsimp only
      split
      · refine (function_finishes (by omega) (Nat.le_refl _)).bind fun first s₁ fewer => ?_
        exact (ih (by omega) (by omega)).andThen fun _ _ => .done
      split
      · exact .failed
      · refine ((finishingStatements dialect steps).statement (by omega) (Nat.le_refl _)).bind
          fun first s₁ fewer => ?_
        exact (ih (by omega) (by omega)).andThen fun _ _ => .done

end Parser

end MatlabFront
