import MatlabFront.Proofs.Program.Copied
import MatlabFront.Proofs.Program.Rounds
import MatlabFront.Proofs.Program.Finished
import MatlabFront.Proofs.Program.Steady

/-!
# The parser comes to an end

Whatever the tokens are, the parser comes to a program or a failure. Its routines only go forwards
in the input, each of its loops takes a token in every round that does not leave it, and a number of
steps linear in the number of tokens left is never exhausted.
-/

namespace MatlabFront

open MatlabFront.Parser

/-- The state in which a parse ended, if it ended. -/
def Outcome.state? {α : Type} : Outcome α → Option State
  | .done _ final => some final
  | .failed _ met => some met
  | .exhausted => none

namespace Outcome

variable {α : Type} {s final : State} {outcome : Outcome α}

/-- A parse that goes on ends behind its start. -/
theorem Onward.reaches (onward : outcome.Onward s) (ended : outcome.state? = some final) :
    s.Reaches final := by
  cases onward with
  | done reaches | failed reaches =>
    obtain rfl := Option.some.inj ended
    exact reaches
  | exhausted => cases ended

/-- A parse that finishes does not run out of steps. -/
theorem Finishes.ne_exhausted {bound : Nat} (finishes : outcome.Finishes bound) :
    outcome ≠ .exhausted := by
  cases finishes <;> nofun

end Outcome

/-- The cursor stays between where it was and the end of the input. -/
theorem State.Reaches.cursor_bounds {s final : State} (reaches : s.Reaches final) :
    s.cursor ≤ final.cursor ∧ final.cursor ≤ s.cursor + s.rest.length := by
  refine ⟨reaches.cursor_le, ?_⟩
  have whole := congrArg List.length reaches.whole
  simp only [List.length_append, List.length_reverse] at whole
  rw [cursor, cursor, ← whole]
  exact Nat.le_add_right _ _

namespace Parser

/-- A routine of the parser of a dialect with some steps. -/
inductive Routine (dialect : Dialect) (steps : Nat) : {α : Type} → Parser α → Prop where
  | advance : Routine dialect steps advance
  | consume (kind : Kind) : Routine dialect steps (consume kind)
  | expectOr (complaint : Complaint) (kind : Kind) :
    Routine dialect steps (expectOr complaint kind)
  | skipWhile (test : Kind → Bool) : Routine dialect steps (skipWhile test)
  | transposeMarks : Routine dialect steps transposeMarks
  | parameters : Routine dialect steps (parameters steps)
  | parametersFrom : Routine dialect steps (parametersFrom steps)
  | expression (nesting : Nesting) (power : Nat) :
    Routine dialect steps (expression steps nesting power)
  | operators (nesting : Nesting) (power : Nat) (left : Expr) :
    Routine dialect steps (operators steps nesting power left)
  | operand (nesting : Nesting) : Routine dialect steps (operand steps nesting)
  | handle (nesting : Nesting) (pos : Position) : Routine dialect steps (handle steps nesting pos)
  | elements (close : Kind) (afterElement : Bool) :
    Routine dialect steps (elements steps close afterElement)
  | postfixNode (left : Expr) (operator : PostfixOperator) (pos : Position) :
    Routine dialect steps (postfixNode steps left operator pos)
  | arguments (close : Kind) : Routine dialect steps (arguments steps close)
  | argumentsFrom (close : Kind) : Routine dialect steps (argumentsFrom steps close)
  | commandWords : Routine dialect steps commandWords
  | loadTargets (fallback : Position) (words : List (List Token)) :
    Routine dialect steps (loadTargets fallback words)
  | command : Routine dialect steps command
  | resynchronize : Routine dialect steps (resynchronize dialect)
  | ifCondition : Routine dialect steps (ifCondition steps dialect)
  | assignmentOrExpression : Routine dialect steps (assignmentOrExpression steps)
  | plainStatement : Routine dialect steps (plainStatement steps dialect)
  | namesFrom : Routine dialect steps (namesFrom steps)
  | globalNames : Routine dialect steps (globalNames steps)
  | forHeader : Routine dialect steps (forHeader steps)
  | block (ends : Kind → Bool) : Routine dialect steps (block steps dialect ends)
  | statement : Routine dialect steps (statement steps dialect)
  | openStatement : Routine dialect steps (openStatement steps dialect)
  | elseBranch : Routine dialect steps (elseBranch steps dialect)
  | cases : Routine dialect steps (cases steps dialect)
  | bracketedOutputs : Routine dialect steps (bracketedOutputs steps)
  | functionOutputs : Routine dialect steps (functionOutputs steps)
  | functionHead (pos : Position) : Routine dialect steps (functionHead steps pos)
  | function (pos : Position) : Routine dialect steps (function steps dialect pos)
  | topLevel : Routine dialect steps (topLevel steps dialect)

variable {dialect : Dialect} {steps : Nat} {α : Type} {parser : Parser α}

/-- Every routine goes on from where it is called. -/
theorem Routine.onward (routine : Routine dialect steps parser) (s : State) :
    (parser s).Onward s := by
  have same := Nat.le_refl steps
  have expressions : SteadyExpressions False steps steps := steadyExpressions same
  have statements : SteadyStatements dialect steps steps := steadyStatements same
  have free {α : Type} {parser : Parser α} (steady : Steady False parser parser) :
      (parser s).Onward s := steady.onward s
  cases routine with
  | advance => exact free .advance
  | consume kind => exact free (.consume kind)
  | expectOr complaint kind => exact free (.expectOr complaint kind)
  | skipWhile test => exact free (.skipWhile test)
  | transposeMarks => exact free .transposeMarks
  | parameters => exact free (parameters_steady same)
  | parametersFrom => exact free (parametersFrom_steady same)
  | expression nesting power => exact free (expressions.expression nesting power)
  | operators nesting power left => exact free (expressions.operators nesting power left)
  | operand nesting => exact free (expressions.operand nesting)
  | handle nesting pos => exact free (expressions.handle nesting pos)
  | elements close afterElement => exact free (expressions.elements close afterElement)
  | postfixNode left operator pos => exact free (expressions.postfixNode left operator pos)
  | arguments close => exact free (expressions.arguments close)
  | argumentsFrom close => exact free (expressions.argumentsFrom close)
  | commandWords => exact commandWords_onward s
  | loadTargets fallback words => exact free (loadTargets_steady fallback words)
  | command => exact command_onward s
  | resynchronize => exact resynchronize_steady.onward s
  | ifCondition => exact (ifCondition_steady same).onward s
  | assignmentOrExpression => exact free (assignmentOrExpression_steady same)
  | plainStatement => exact (plainStatement_steady same).onward s
  | namesFrom => exact free (namesFrom_steady same)
  | globalNames => exact free (globalNames_steady same)
  | forHeader => exact free (forHeader_steady same)
  | block ends => exact (statements.block ends).onward s
  | statement => exact statements.statement.onward s
  | openStatement => exact statements.openStatement.onward s
  | elseBranch => exact statements.elseBranch.onward s
  | cases => exact statements.cases.onward s
  | bracketedOutputs => exact free (bracketedOutputs_steady same)
  | functionOutputs => exact free (functionOutputs_steady same)
  | functionHead pos => exact free (functionHead_steady same pos)
  | function pos => exact (function_steady same pos).onward s
  | topLevel => exact (topLevel_steady same).onward s

/-- Eight steps for each token left, and eight more, are enough for every routine. -/
theorem Routine.ne_exhausted (routine : Routine dialect steps parser) {s : State}
    (enough : Parser.steps s.rest ≤ steps) : parser s ≠ .exhausted := by
  have left := Nat.lt_succ_self s.rest.length
  have expressions := finishingExpressions steps
  have statements := finishingStatements dialect steps
  unfold Parser.steps at enough
  cases routine with
  | advance => simp
  | consume kind =>
    rw [consume_apply]
    split <;> nofun
  | expectOr complaint kind =>
    exact (Outcome.Finishes.expectOr complaint kind (Nat.le_refl _)).ne_exhausted
  | skipWhile test => nofun
  | transposeMarks => nofun
  | parameters => exact (parameters_finishes (by omega) (Nat.le_refl _)).ne_exhausted
  | parametersFrom => exact (parametersFrom_finishes (by omega) (Nat.le_refl _)).ne_exhausted
  | expression nesting power =>
    exact (expressions.expression nesting power (by omega) (Nat.le_refl _)).ne_exhausted
  | operators nesting power whole =>
    exact (expressions.operators nesting power whole (by omega) left).ne_exhausted
  | operand nesting => exact (expressions.operand nesting (by omega) (Nat.le_refl _)).ne_exhausted
  | handle nesting pos =>
    exact (expressions.handle nesting pos (by omega) (Nat.le_refl _)).ne_exhausted
  | elements close afterElement =>
    exact (expressions.elements close afterElement (by omega) (Nat.le_refl _)).ne_exhausted
  | postfixNode whole operator pos =>
    by_cases transposes : operator = .transpose
    -- A run of marks can be empty here, so that no token need be taken.
    · obtain ⟨fewer, rfl⟩ := Nat.exists_eq_succ_of_ne_zero (n := steps) (by omega)
      rw [postfixNode_succ, transposes]
      nofun
    · exact (expressions.postfixNode whole operator pos (by omega) (Nat.le_refl _)
        fun transpose => absurd transpose transposes).ne_exhausted
  | arguments close =>
    exact (expressions.arguments close (by omega) (Nat.le_refl _)).ne_exhausted
  | argumentsFrom close =>
    exact (expressions.argumentsFrom close (by omega) (Nat.le_refl _)).ne_exhausted
  | commandWords => nofun
  | loadTargets fallback words => exact (loadTargets_finishes left).ne_exhausted
  | command => exact (command_finishes (Nat.le_refl _)).ne_exhausted
  | resynchronize => exact (resynchronize_finishes left).ne_exhausted
  | ifCondition => exact (ifCondition_finishes (by omega) (Nat.le_refl _)).ne_exhausted
  | assignmentOrExpression =>
    exact (assignmentOrExpression_finishes (by omega) (Nat.le_refl _)).ne_exhausted
  | plainStatement => exact (plainStatement_finishes (by omega) (Nat.le_refl _)).ne_exhausted
  | namesFrom => exact (namesFrom_finishes (by omega) left).ne_exhausted
  | globalNames => exact (globalNames_finishes (by omega) (Nat.le_refl _)).ne_exhausted
  | forHeader => exact (forHeader_finishes (by omega) (Nat.le_refl _)).ne_exhausted
  | block ends => exact (statements.block ends (by omega) left).ne_exhausted
  | statement => exact (statements.statement (by omega) (Nat.le_refl _)).ne_exhausted
  | openStatement => exact (statements.openStatement (by omega) (Nat.le_refl _)).ne_exhausted
  | elseBranch => exact (statements.elseBranch (by omega) left).ne_exhausted
  | cases => exact (statements.cases (by omega) left).ne_exhausted
  | bracketedOutputs => exact (bracketedOutputs_finishes (by omega) (Nat.le_refl _)).ne_exhausted
  | functionOutputs => exact (functionOutputs_finishes (by omega) left).ne_exhausted
  | functionHead pos => exact (functionHead_finishes (by omega) (Nat.le_refl _)).ne_exhausted
  | function pos => exact (function_finishes (by omega) (Nat.le_refl _)).ne_exhausted
  | topLevel => exact (topLevel_finishes (by omega) left).ne_exhausted

/-- A loop of the parser of a dialect takes a token in every round that does not leave it. -/
structure TakesTokens (dialect : Dialect) : Prop where
  program : Loops (fun steps _ => topLevel steps dialect) (topLevelRound dialect)
  block (ends : Kind → Bool) :
    Loops (fun steps _ => block steps dialect ends) (blockRound dialect ends)
  cases : Loops (fun steps _ => cases steps dialect) (casesRound dialect)
  conditions : Loops (fun steps _ => elseBranch steps dialect) (elseRound dialect)
  rows (close : Kind) :
    Loops (fun steps afterElement => elements steps close afterElement) (elementsRound close)
  operators (nesting : Nesting) (power : Nat) :
    Loops (fun steps left => operators steps nesting power left) (operatorsRound nesting power)
  arguments (close : Kind) :
    Loops (fun steps _ => argumentsFrom steps close) (argumentsRound close)
  parameters : Loops (fun steps _ => parametersFrom steps) parametersRound
  outputs : Loops (fun steps _ => bracketedOutputs steps) outputsRound
  names : Loops (fun steps _ => namesFrom steps) namesRound
  words : Loops (fun _ _ => commandWords) wordsRound
  marks : Loops (fun _ _ => transposeMarks) marksRound
  skips (test : Kind → Bool) : Loops (fun _ _ => skipWhile test) (skipRound test)

/-- Every loop of the parser takes a token in each round that goes on. -/
theorem takesTokens (dialect : Dialect) : TakesTokens dialect where
  program := topLevel_loops
  block := block_loops
  cases := cases_loops
  conditions := elseBranch_loops
  rows := elements_loops
  operators := operators_loops
  arguments := arguments_loops
  parameters := parameters_loops
  outputs := outputs_loops
  names := names_loops
  words := words_loops
  marks := marks_loops
  skips := skipWhile_loops

end Parser

/-- Some tokens are a program or are refused. -/
theorem Program.exists_ofTokens (dialect : Dialect) (tokens : List Token) :
    ∃ result, Program.ofTokens dialect tokens = some result := by
  cases found : tokens.find? (·.kind == .error) with
  | some bad => exact ⟨_, ofTokens_of_error found⟩
  | none =>
    have routine : Routine dialect (steps tokens) (topLevel (steps tokens) dialect) := .topLevel
    have ended := routine.ne_exhausted (s := .start tokens) (Nat.le_refl _)
    rw [ofTokens_of_clean found]
    cases run : topLevel (steps tokens) dialect (.start tokens) with
    | done | failed => exact ⟨_, rfl⟩
    | exhausted => exact absurd run ended

/-- The parser comes to an end. It goes only forwards, an expression, a statement and a function take
a token, every loop takes one in each round that does not leave it, and steps that are linear in the
number of tokens left are never exhausted. -/
theorem Parser.terminates (dialect : Dialect) :
    (∀ tokens, ∃ result, Program.ofTokens dialect tokens = some result) ∧
    (∀ (steps : Nat) {α : Type} (parser : Parser α), Routine dialect steps parser →
      ∀ s : State,
        (∀ final, (parser s).state? = some final →
          s.Reaches final ∧ s.cursor ≤ final.cursor ∧ final.cursor ≤ s.cursor + s.rest.length) ∧
        (8 * (s.rest.length + 1) ≤ steps → parser s ≠ .exhausted)) ∧
    (∀ (steps : Nat) (s : State),
      (∀ nesting power, (expression steps nesting power s).Ensures fun _ final => s.Passes final) ∧
      ((statement steps dialect s).Ensures fun _ final => s.Passes final) ∧
      ∀ pos, (function steps dialect pos s).Ensures fun _ final => s.Passes final) ∧
    TakesTokens dialect := by
  refine ⟨Program.exists_ofTokens dialect, ?_, ?_, takesTokens dialect⟩
  · intro steps α parser routine s
    constructor
    · intro final ended
      have reaches := (routine.onward s).reaches ended
      exact ⟨reaches, reaches.cursor_bounds⟩
    · exact routine.ne_exhausted
  · intro steps s
    exact ⟨expression_passes, statement_passes, function_passes⟩

end MatlabFront
