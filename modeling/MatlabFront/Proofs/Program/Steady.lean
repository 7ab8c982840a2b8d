import MatlabFront.Proofs.Expression.Steady
import MatlabFront.Proofs.Parser.Relocate
import MatlabFront.Proofs.Program.Words

/-!
# Programs go on and look ahead two tokens

Every function of the parser of statements and functions goes on. In the strict dialect it looks no
more than two tokens behind the next one; in the lenient dialect a statement without a keyword can
be a command, and whether it is one depends on everything up to its end.
-/

namespace MatlabFront.Parser

namespace Steady

variable {bounded : Prop}

/-- Asking whether a separator comes next is steady. -/
theorem atSeparator : Steady bounded Parser.atSeparator Parser.atSeparator :=
  peekKind.bind fun found => by
    cases found <;> exact .pure _

/-- A demand for a separator is steady. -/
theorem expectSeparator (clause : Clause) :
    Steady bounded (Parser.expectSeparator clause) (Parser.expectSeparator clause) := by
  refine atSeparator.bind fun _ => ?_
  split
  · exact .pure ()
  · exact .complain _

/-- A demand for the end of a statement is steady. -/
theorem expectTerminator : Steady bounded Parser.expectTerminator Parser.expectTerminator := by
  refine peekKind.bind fun found => ?_
  cases found with
  | none => exact .pure ()
  | some kind =>
    dsimp only
    split
    · exact .pure ()
    · exact .complain _

/-- A demand for the keyword that closes a block is steady. -/
theorem expectEnd (block : Block) :
    Steady bounded (Parser.expectEnd block) (Parser.expectEnd block) := (expectOr _ _).discard

/-- Asking for the outputs in scope looks at no token. -/
theorem outputsInScope : Steady bounded Parser.outputsInScope Parser.outputsInScope :=
  of_look State.outputs outputsInScope_apply
    fun agrees _ => by rw [State.outputs, State.outputs, agrees.scope]

/-- Entering a function takes no token. -/
theorem enterScope (outputs : List Ident) :
    Steady bounded (Parser.enterScope outputs) (Parser.enterScope outputs) :=
  of_done (fun _ => ()) (fun s => { s with scope := some ⟨outputs, false⟩ }) (fun _ => rfl)
    (fun s => (State.Reaches.refl s).congr rfl rfl)
    fun _ _ _ _ agrees _ => ⟨rfl, agrees.consumed, rfl, agrees.rest⟩

/-- Leaving a function takes no token. -/
theorem leaveScope (outputs : List Ident) :
    Steady bounded (Parser.leaveScope outputs) (Parser.leaveScope outputs) :=
  of_done (fun s => s.scope.getD ⟨outputs, false⟩) (fun s => { s with scope := none })
    (fun _ => rfl) (fun s => (State.Reaches.refl s).congr rfl rfl)
    fun _ _ _ _ agrees _ => ⟨by rw [agrees.scope], agrees.consumed, rfl, agrees.rest⟩

/-- A statement that is refused is refused for a flaw. -/
theorem assigned (left value : Expr) (pos : Position) :
    Steady bounded (ofExcept (Assignment.statement left value pos))
      (ofExcept (Assignment.statement left value pos)) := by
  cases made : Assignment.statement left value pos with
  | ok written => exact .pure written
  | error failure =>
    obtain ⟨flaw, start, rfl, -⟩ := Assignment.invalidTarget_of_statement made
    exact .reject flaw start

/-- A parser that is not bounded need only go on. -/
theorem of_onward {α : Type} {parser other : Parser α} (free : ¬bounded)
    (onward : ∀ s, (parser s).Onward s) : Steady bounded parser other where
  onward := onward
  decided holds := absurd holds free

end Steady

section Command

/-- The words of a command go on, however many they are. -/
theorem commandWords_onward (s : State) : (commandWords s).Onward s := by
  rw [commandWords_apply]
  exact .done ⟨(Command.words s.rest).1.flatten, (Command.words_flatten s.rest).symm, rfl⟩

/-- The words of `load` are looked at behind them all. -/
theorem loadTargets_steady {bounded : Prop} (fallback : Position) (words : List (List Token)) :
    Steady bounded (loadTargets fallback words) (loadTargets fallback words) := by
  induction words with
  | nil => exact .pure []
  | cons word words ih =>
    have rest (target : Target) : Steady bounded
        (do return target :: (← loadTargets fallback words) : Parser (List Target))
        (do return target :: (← loadTargets fallback words)) := ih.bind fun _ => .pure _
    match word with
    | [] | _ :: _ :: _ => exact (Steady.reject _ _).bind rest
    | [token] =>
      by_cases name : token.kind = .ident
      · simp only [loadTargets, if_pos name]
        exact (Steady.used token).bind fun used => .bind (.pure _) rest
      · simp only [loadTargets, if_neg name]
        exact (Steady.reject _ _).bind rest

/-- A command goes on. -/
theorem command_onward (s : State) : (command s).Onward s := by
  have words : Steady False commandWords commandWords := .of_onward id commandWords_onward
  have whole : Steady False command command := by
    refine .bind .expectUsed fun callee => words.bind fun found => .bind (.report _) fun _ => ?_
    match found with
    | [] | [_] => exact .pure _
    | file :: target :: more =>
      dsimp only
      split
      · exact (loadTargets_steady _ _).bind fun _ => .pure _
      · exact .pure _
  exact whole.onward s

end Command

variable {dialect : Dialect} {steps more : Nat}

/-- The strict dialect looks no further than two tokens. -/
abbrev StrictSteady (dialect : Dialect) {α : Type} (parser other : Parser α) : Prop :=
  Steady (dialect = .strict) parser other

/-- An expression outside of all brackets is steady. -/
theorem wholeExpression_steady {bounded : Prop} (enough : steps ≤ more) :
    Steady bounded (wholeExpression steps) (wholeExpression more) :=
  (steadyExpressions enough).expression .outside 0

/-- The strict dialect does not resynchronise. -/
theorem resynchronize_steady : StrictSteady dialect (resynchronize dialect)
    (resynchronize dialect) := by
  cases dialect with
  | strict => exact .complain _
  | matlab =>
    refine .bind .peek fun found => ?_
    cases found with
    | none => exact .pure ()
    | some token => exact .bind (.report _) fun _ => .skipWhile _

/-- The condition of an `if` is steady in the strict dialect. -/
theorem ifCondition_steady (enough : steps ≤ more) :
    StrictSteady dialect (ifCondition steps dialect) (ifCondition more dialect) := by
  refine (wholeExpression_steady enough).bind fun condition => .bind .atSeparator fun _ => ?_
  split
  · exact .pure _
  · exact resynchronize_steady.bind fun _ => .pure _

/-- An assignment or expression is steady. -/
theorem assignmentOrExpression_steady {bounded : Prop} (enough : steps ≤ more) :
    Steady bounded (assignmentOrExpression steps) (assignmentOrExpression more) := by
  refine (wholeExpression_steady enough).bind fun left => .bind .peek fun found => ?_
  cases found with
  | none => exact .pure _
  | some token =>
    dsimp only
    split
    · exact .bind .advance fun _ => (wholeExpression_steady enough).bind fun value =>
        .assigned left value token.pos
    · exact .pure _

/-- A statement without a keyword is steady in the strict dialect, where it is no command. -/
theorem plainStatement_steady (enough : steps ≤ more) :
    StrictSteady dialect (plainStatement steps dialect) (plainStatement more dialect) := by
  cases dialect with
  | strict => exact assignmentOrExpression_steady enough
  | matlab =>
    have free : ¬Dialect.matlab = .strict := nofun
    have looks : StrictSteady .matlab atCommand atCommand :=
      .of_onward free fun s => by rw [atCommand_apply]; exact .done (.refl s)
    refine looks.bind fun _ => ?_
    split
    · exact .of_onward free command_onward
    · exact assignmentOrExpression_steady enough

/-- Names are steady. -/
theorem namesFrom_steady {bounded : Prop} (enough : steps ≤ more) :
    Steady bounded (namesFrom steps) (namesFrom more) := by
  induction steps generalizing more with
  | zero => exact .exhausted
  | succ steps ih =>
    obtain ⟨more, rfl⟩ := Nat.exists_eq_succ_of_ne_zero (Nat.ne_zero_of_lt enough)
    rw [namesFrom, namesFrom]
    refine .bind .peekKind fun _ => ?_
    split
    · exact .bind .expectUsed fun name => (ih (Nat.le_of_succ_le_succ enough)).bind fun _ =>
        .pure _
    · exact .pure _

/-- The names of a `global` are steady. -/
theorem globalNames_steady {bounded : Prop} (enough : steps ≤ more) :
    Steady bounded (globalNames steps) (globalNames more) :=
  .bind .expectUsed fun _ => (namesFrom_steady enough).bind fun _ => .pure _

/-- The header of a `for` is the place where three tokens are looked at. -/
theorem forHeader_steady {bounded : Prop} (enough : steps ≤ more) :
    Steady bounded (forHeader steps) (forHeader more) := by
  have closed (var : Ident) (range : Expr) : Steady bounded
      (do expectSeparator .forHeader; return (var, range) : Parser (Ident × Expr))
      (do expectSeparator .forHeader; return (var, range)) :=
    .bind (.expectSeparator _) fun _ => .pure _
  refine .bind .peekKind fun first => .bind .secondKind fun second => .bind .thirdKind
    fun third => ?_
  by_cases enclosed : first = some .leftParen ∧ second = some .ident ∧ third = some .assign
  · simp only [if_pos enclosed]
    refine .bind .advance fun _ => .bind .expectUsed fun var => ?_
    refine (Steady.expect .assign).discard.bind fun _ => ?_
    exact (wholeExpression_steady enough).bind fun range =>
      (Steady.expect .rightParen).discard.bind fun _ => closed var range
  · simp only [if_neg enclosed]
    refine .bind .expectUsed fun var => (Steady.expect .assign).discard.bind fun _ => ?_
    exact (wholeExpression_steady enough).bind fun range => closed var range

/-- Each function of the parser of statements is steady against itself with more steps. -/
structure SteadyStatements (dialect : Dialect) (steps more : Nat) : Prop where
  block (ends : Kind → Bool) :
    StrictSteady dialect (block steps dialect ends) (block more dialect ends)
  statement : StrictSteady dialect (statement steps dialect) (statement more dialect)
  openStatement : StrictSteady dialect (openStatement steps dialect) (openStatement more dialect)
  elseBranch : StrictSteady dialect (elseBranch steps dialect) (elseBranch more dialect)
  cases : StrictSteady dialect (cases steps dialect) (cases more dialect)

section Steps

variable (steady : SteadyStatements dialect steps more)
include steady

/-- A block is steady when its statements are with a step less. -/
theorem block_steady (ends : Kind → Bool) :
    StrictSteady dialect (block (steps + 1) dialect ends) (block (more + 1) dialect ends) := by
  rw [block, block]
  refine .bind (.skipWhile _) fun _ => .bind .peekKind fun found => ?_
  cases found with
  | none => exact .pure _
  | some kind =>
    dsimp only
    split
    · exact .pure _
    split
    · exact .complain _
    split
    · exact .complain _
    · exact steady.statement.bind fun first => (steady.block ends).bind fun _ => .pure _

/-- A statement with what ends it is steady when the statement is with a step less. -/
theorem statement_steady :
    StrictSteady dialect (statement (steps + 1) dialect) (statement (more + 1) dialect) := by
  rw [statement, statement]
  exact steady.openStatement.bind fun _ => .bind .expectTerminator fun _ => .pure _

/-- A statement is steady when its blocks are with a step less. -/
theorem openStatement_steady (enough : steps ≤ more) :
    StrictSteady dialect (openStatement (steps + 1) dialect)
      (openStatement (more + 1) dialect) := by
  rw [openStatement, openStatement]
  refine .bind .peek fun found => ?_
  cases found with
  | none => exact (plainStatement_steady enough).bind fun _ => .pure _
  | some token =>
    dsimp only
    cases token.kind with
    | ifKeyword =>
      refine .bind .advance fun _ => (ifCondition_steady enough).bind fun condition => ?_
      refine (steady.block _).bind fun body => steady.elseBranch.bind fun otherwise => ?_
      exact .bind (.expectEnd _) fun _ => .pure _
    | whileKeyword =>
      refine .bind .advance fun _ => (wholeExpression_steady enough).bind fun condition => ?_
      refine .bind (.expectSeparator _) fun _ => (steady.block _).bind fun body => ?_
      exact .bind (.expectEnd _) fun _ => .pure _
    | forKeyword =>
      refine .bind .advance fun _ => (forHeader_steady enough).bind fun head => ?_
      exact (steady.block _).bind fun body => .bind (.expectEnd _) fun _ => .pure _
    | switchKeyword =>
      refine .bind .advance fun _ => (wholeExpression_steady enough).bind fun subject => ?_
      refine .bind (.expectSeparator _) fun _ => steady.cases.bind fun chain => ?_
      refine .bind (.expectEnd _) fun _ => ?_
      obtain ⟨_ | ⟨first, clauses⟩, otherwise⟩ := chain
      · exact .bind (.pure ()) fun _ => .pure _
      · exact .bind (.report _) fun _ => .pure _
    | tryKeyword =>
      refine .bind .advance fun _ => (steady.block _).bind fun body => ?_
      refine .bind (.consume _) fun caught => ?_
      split
      · exact (steady.block _).bind fun handler => .bind (.expectEnd _) fun _ => .pure _
      · exact .bind (.pure []) fun handler => .bind (.expectEnd _) fun _ => .pure _
    | globalKeyword =>
      exact .bind .advance fun _ => (globalNames_steady enough).bind fun _ => .pure _
    | breakKeyword | continueKeyword => exact .bind .advance fun _ => .pure _
    | returnKeyword => exact .bind .advance fun _ => .bind .outputsInScope fun _ => .pure _
    | _ => exact (plainStatement_steady enough).bind fun _ => .pure _

/-- What follows the body of an `if` is steady when its blocks are with a step less. -/
theorem elseBranch_steady (enough : steps ≤ more) :
    StrictSteady dialect (elseBranch (steps + 1) dialect) (elseBranch (more + 1) dialect) := by
  rw [elseBranch, elseBranch]
  refine .bind .peek fun found => ?_
  cases found with
  | none => exact .pure _
  | some token =>
    dsimp only
    cases token.kind with
    | elseIfKeyword =>
      refine .bind .advance fun _ => (wholeExpression_steady enough).bind fun condition => ?_
      refine .bind (.expectSeparator _) fun _ => (steady.block _).bind fun body => ?_
      exact steady.elseBranch.bind fun _ => .pure _
    | elseKeyword => exact .bind .advance fun _ => (steady.block _).bind fun _ => .pure _
    | _ => exact .pure _

/-- The cases of a switch are steady when their bodies are with a step less. -/
theorem cases_steady (enough : steps ≤ more) :
    StrictSteady dialect (cases (steps + 1) dialect) (cases (more + 1) dialect) := by
  rw [Parser.cases, Parser.cases]
  refine .bind (.skipWhile _) fun _ => .bind .peek fun found => ?_
  cases found with
  | none => exact .pure _
  | some token =>
    dsimp only
    cases token.kind with
    | caseKeyword =>
      refine .bind .advance fun _ => (wholeExpression_steady enough).bind fun value => ?_
      refine .bind (.expectSeparator _) fun _ => (steady.block _).bind fun body => ?_
      exact steady.cases.bind fun _ => .pure _
    | otherwiseKeyword => exact .bind .advance fun _ => (steady.block _).bind fun _ => .pure _
    | _ => exact .pure _

end Steps

/-- Statements are steady, with every number of steps and against every greater one. -/
theorem steadyStatements (enough : steps ≤ more) : SteadyStatements dialect steps more := by
  induction steps generalizing more with
  | zero =>
    exact {
      block := fun _ => .exhausted
      statement := .exhausted
      openStatement := .exhausted
      elseBranch := .exhausted
      cases := .exhausted }
  | succ steps ih =>
    obtain ⟨more, rfl⟩ := Nat.exists_eq_succ_of_ne_zero (Nat.ne_zero_of_lt enough)
    have enough := Nat.le_of_succ_le_succ enough
    have steady := ih enough
    exact {
      block := block_steady steady
      statement := statement_steady steady
      openStatement := openStatement_steady steady enough
      elseBranch := elseBranch_steady steady enough
      cases := cases_steady steady enough }

/-- Outputs in brackets are steady. -/
theorem bracketedOutputs_steady {bounded : Prop} (enough : steps ≤ more) :
    Steady bounded (bracketedOutputs steps) (bracketedOutputs more) := by
  induction steps generalizing more with
  | zero => exact .exhausted
  | succ steps ih =>
    obtain ⟨more, rfl⟩ := Nat.exists_eq_succ_of_ne_zero (Nat.ne_zero_of_lt enough)
    have later := ih (Nat.le_of_succ_le_succ enough)
    rw [bracketedOutputs, bracketedOutputs]
    refine .bind (.consume _) fun _ => ?_
    split
    · exact .pure _
    refine .bind (.consume _) fun _ => ?_
    split
    · exact later
    · exact .bind .expectDeclared fun name => later.bind fun _ => .pure _

/-- The outputs of a function are steady. -/
theorem functionOutputs_steady {bounded : Prop} (enough : steps ≤ more) :
    Steady bounded (functionOutputs steps) (functionOutputs more) := by
  refine .bind (.consume _) fun _ => ?_
  split
  · exact (bracketedOutputs_steady enough).bind fun _ =>
      (Steady.expect .assign).discard.bind fun _ => .pure _
  refine .bind .peekKind fun _ => .bind .secondKind fun _ => ?_
  split
  · exact .bind .expectDeclared fun _ => .bind .advance fun _ => .pure _
  · exact .pure _

/-- The head of a function is steady. -/
theorem functionHead_steady {bounded : Prop} (enough : steps ≤ more) (pos : Position) :
    Steady bounded (functionHead steps pos) (functionHead more pos) := by
  refine (functionOutputs_steady enough).bind fun _ => .bind .expectDeclared fun _ => ?_
  refine .bind .peekKind fun _ => ?_
  split
  · exact (parameters_steady enough).bind fun _ => .pure _
  · exact .bind (.pure []) fun _ => .pure _

/-- A function is steady in the strict dialect. -/
theorem function_steady (enough : steps ≤ more) (pos : Position) :
    StrictSteady dialect (function steps dialect pos) (function more dialect pos) := by
  refine (functionHead_steady enough pos).bind fun head => .bind (.report _) fun _ => ?_
  refine .bind (.enterScope _) fun _ => ((steadyStatements enough).block _).bind fun body => ?_
  refine .bind (.leaveScope _) fun scope => (Steady.consume .endKeyword).discard.bind fun _ => ?_
  exact .bind (.report _) fun _ => .pure _

/-- The top of a program is steady in the strict dialect. -/
theorem topLevel_steady (enough : steps ≤ more) :
    StrictSteady dialect (topLevel steps dialect) (topLevel more dialect) := by
  induction steps generalizing more with
  | zero => exact .exhausted
  | succ steps ih =>
    obtain ⟨more, rfl⟩ := Nat.exists_eq_succ_of_ne_zero (Nat.ne_zero_of_lt enough)
    have enough := Nat.le_of_succ_le_succ enough
    rw [topLevel, topLevel]
    refine .bind (.skipWhile _) fun _ => .bind .peek fun found => ?_
    cases found with
    | none => exact .pure _
    | some token =>
      dsimp only
      split
      · exact .bind .advance fun _ => (function_steady enough token.pos).bind fun first =>
          (ih enough).bind fun _ => .pure _
      split
      · exact .complain _
      · exact (steadyStatements enough).statement.bind fun first =>
          (ih enough).bind fun _ => .pure _

end MatlabFront.Parser
