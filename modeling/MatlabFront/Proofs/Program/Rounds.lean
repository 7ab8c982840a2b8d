import MatlabFront.Proofs.Expression.Rounds
import MatlabFront.Proofs.Program.Length
import MatlabFront.Proofs.Program.Sound

/-!
# The rounds of the loops in programs

The loops of the parser of statements and functions are the top of a program, a block, the cases of
a switch, the conditions of an `if`, the names of a `global` and the outputs of a function.
-/

namespace MatlabFront.Parser

variable {dialect : Dialect} {steps : Nat} {s : State}

/-- A statement takes at least one token. -/
theorem statement_passes :
    (statement steps dialect s).Ensures fun _ final => s.Passes final := by
  intro statements final run
  obtain ⟨written, -, reads⟩ := (Surface.soundAt dialect steps).statement run
  exact .of_reaches reads.reaches reads.length_le

/-- A function takes at least one token behind its keyword. -/
theorem function_passes (pos : Position) :
    (function steps dialect pos s).Ensures fun _ final => s.Passes final := by
  intro whole final run
  obtain ⟨head, body, s₁, s₂, opened, inside, -, rfl⟩ := Surface.function_sound run
  have entered : s.Reaches (s₁.enter head) := opened.reaches.congr rfl rfl
  have reaches := (entered.trans inside.reaches).leave.log
    (.functionClosed head.name.name (Surface.closed head (Surface.lowerAll head.outputs body)).length
      s₂.usesNargin)
  refine .of_reaches reaches ?_
  have first := opened.length_le
  have second := inside.reaches.length_le
  have last := (State.Reaches.refl s₂).leave.length_le
  rw [State.enter_rest] at second
  rw [State.log_rest]
  omega

/-- A block is read forwards. It may be empty. -/
theorem block_reaches (ends : Kind → Bool) :
    (block steps dialect ends s).Ensures fun _ final => s.Reaches final := by
  intro body final run
  obtain ⟨written, -, reads⟩ := (Surface.soundAt dialect steps).block run
  exact reads.reaches

/-- A name that is demanded and used is a token. -/
theorem expectUsed_passes : (expectUsed s).Ensures fun _ final => s.Passes final := by
  intro name final run
  obtain ⟨token, known, -, -, rfl⟩ := expectUsed_eq_done.mp run
  have noted : s.next.Reaches (s.next.note token.text) := (State.Reaches.refl _).note _
  exact (State.Passes.next known).before noted

/-- A name that is demanded and declared is a token. -/
theorem expectDeclared_passes : (expectDeclared s).Ensures fun _ final => s.Passes final := by
  intro name final run
  obtain ⟨token, known, -, -, rfl⟩ := expectDeclared_eq_done.mp run
  exact .next known

/-- A demand for a separator takes no token. -/
theorem expectSeparator_stays (clause : Clause) :
    (expectSeparator clause s).Ensures fun _ final => final = s := by
  rw [expectSeparator_apply]
  split
  · exact .done rfl
  · exact .failed

/-- A statement or function at the top of a program. -/
def topLevelRound (dialect : Dialect) (steps : Nat) (_ : Unit) :
    Parser (Turn Unit (List Stmt)) := do
  skipSeparators
  match ← peek with
  | none => return .leave []
  | some token =>
    if token.kind = .functionKeyword then
      advance
      let first ← function steps dialect token.pos
      return .again () (.function first :: ·)
    else if token.kind.isBlockKeyword then complain .strayBlockKeyword
    else
      let first ← statement steps dialect
      return .again () (first ++ ·)

/-- The top of a program is read in a loop, a statement or a function in each round. -/
theorem topLevel_loops :
    Loops (fun steps _ => topLevel steps dialect) (topLevelRound dialect) where
  unfolds steps _ s := by
    refine topLevel_succ.trans ?_
    simp only [topLevelRound, bind_apply, skipSeparators_apply, peek_apply, Outcome.bind_done]
    cases s.skipSeparators.peek with
    | none => rfl
    | some token =>
      dsimp only
      split
      · simp only [bind_apply, advance_apply, Outcome.bind_done, Outcome.bind_bind]
        rfl
      split
      · rfl
      · rw [bind_apply, Outcome.bind_bind]
        rfl
  takes steps _ s := by
    have skipped := (State.Reaches.refl s).skip Kind.isSeparator
    simp only [topLevelRound, bind_apply, skipSeparators_apply, peek_apply, Outcome.bind_done]
    cases known : s.skipSeparators.peek with
    | none => exact .done trivial
    | some token =>
      have keyword := State.Passes.next known
      dsimp only
      split
      · simp only [bind_apply, advance_apply, Outcome.bind_done]
        exact (function_passes token.pos).bind fun first s₁ later =>
          .done (.after skipped (keyword.before later.reaches))
      split
      · exact .failed
      · exact statement_passes.bind fun first s₁ later => .done (.after skipped later)

/-- A statement of a block. -/
def blockRound (dialect : Dialect) (ends : Kind → Bool) (steps : Nat) (_ : Unit) :
    Parser (Turn Unit (List Stmt)) := do
  skipSeparators
  match ← peekKind with
  | none => return .leave []
  | some kind =>
    if ends kind then return .leave []
    else if kind = .functionKeyword then complain .nestedFunction
    else if kind.isBlockKeyword then complain .misplacedBlockKeyword
    else
      let first ← statement steps dialect
      return .again () (first ++ ·)

/-- A block is read in a loop, a statement in each round. -/
theorem block_loops (ends : Kind → Bool) :
    Loops (fun steps _ => block steps dialect ends) (blockRound dialect ends) where
  unfolds steps _ s := by
    refine block_succ.trans ?_
    simp only [blockRound, bind_apply, skipSeparators_apply, peekKind_apply, Outcome.bind_done]
    cases s.skipSeparators.peekKind with
    | none => rfl
    | some kind =>
      dsimp only
      split
      · rfl
      split
      · rfl
      split
      · rfl
      · rw [bind_apply, Outcome.bind_bind]
        rfl
  takes steps _ s := by
    have skipped := (State.Reaches.refl s).skip Kind.isSeparator
    simp only [blockRound, bind_apply, skipSeparators_apply, peekKind_apply, Outcome.bind_done]
    cases s.skipSeparators.peekKind with
    | none => exact .done trivial
    | some kind =>
      dsimp only
      split
      · exact .done trivial
      split
      · exact .failed
      split
      · exact .failed
      · exact statement_passes.bind fun first s₁ later => .done (.after skipped later)

/-- A case of a switch, or what stands behind the last one. -/
def casesRound (dialect : Dialect) (steps : Nat) (_ : Unit) :
    Parser (Turn Unit (List CaseClause × Option (List Stmt))) := do
  skipSeparators
  match ← peek with
  | none => return .leave ([], none)
  | some token =>
    match token.kind with
    | .caseKeyword =>
      advance
      let value ← wholeExpression steps
      expectSeparator .caseValue
      let body ← block steps dialect endsCase
      return .again () fun chain => (⟨value, body, token.pos⟩ :: chain.1, chain.2)
    | .otherwiseKeyword =>
      advance
      return .leave ([], some (← block steps dialect (· == .endKeyword)))
    | _ => return .leave ([], none)

/-- The cases of a switch are read in a loop, one of them in each round. -/
theorem cases_loops :
    Loops (fun steps _ => cases steps dialect) (casesRound dialect) where
  unfolds steps _ s := by
    simp only [casesRound, bind_apply, skipSeparators_apply, peek_apply, Outcome.bind_done]
    cases known : s.skipSeparators.peek with
    | none =>
      have ended := State.peekKind_of_end known
      rw [cases_of_ne (by simp [ended]) (by simp [ended])]
      rfl
    | some token =>
      rw [cases_of_peek known]
      dsimp only
      cases token.kind <;>
        simp only [bind_apply, advance_apply, Outcome.bind_done, Outcome.bind_bind] <;> rfl
  takes steps _ s := by
    have skipped := (State.Reaches.refl s).skip Kind.isSeparator
    simp only [casesRound, bind_apply, skipSeparators_apply, peek_apply, Outcome.bind_done]
    cases known : s.skipSeparators.peek with
    | none => exact .done trivial
    | some token =>
      have keyword := State.Passes.next known
      dsimp only
      cases token.kind with
      | caseKeyword =>
        simp only [bind_apply, advance_apply, Outcome.bind_done]
        refine (expression_passes .outside 0).bind fun value s₁ first => ?_
        refine (expectSeparator_stays _).andThen fun _ s₂ stays => ?_
        refine (block_reaches _).andThen fun body s₃ second => .done ?_
        exact .after skipped (keyword.before (first.reaches.trans (stays ▸ second)))
      | otherwiseKeyword =>
        simp only [bind_apply, advance_apply, Outcome.bind_done]
        exact (block_reaches _).bind fun _ _ _ => .done trivial
      | _ => exact .done trivial

/-- A further condition of an `if`, or what stands behind the last one. -/
def elseRound (dialect : Dialect) (steps : Nat) (_ : Unit) : Parser (Turn Unit Else) := do
  match ← peek with
  | none => return .leave (.block [])
  | some token =>
    match token.kind with
    | .elseIfKeyword =>
      advance
      let condition ← wholeExpression steps
      expectSeparator .elseIfCondition
      let body ← block steps dialect endsBranch
      return .again () fun otherwise => .branch (.mk condition body otherwise token.pos)
    | .elseKeyword =>
      advance
      return .leave (.block (← block steps dialect (· == .endKeyword)))
    | _ => return .leave (.block [])

/-- The alternatives of an `if` are read in a loop, a condition with its body in each round. -/
theorem elseBranch_loops :
    Loops (fun steps _ => elseBranch steps dialect) (elseRound dialect) where
  unfolds steps _ s := by
    simp only [elseRound, bind_apply, peek_apply, Outcome.bind_done]
    cases known : s.peek with
    | none =>
      have ended := State.peekKind_of_end known
      rw [elseBranch_of_ne (by simp [ended]) (by simp [ended])]
      rfl
    | some token =>
      rw [elseBranch_of_peek known]
      dsimp only
      cases token.kind <;>
        simp only [bind_apply, advance_apply, Outcome.bind_done, Outcome.bind_bind] <;> rfl
  takes steps _ s := by
    simp only [elseRound, bind_apply, peek_apply, Outcome.bind_done]
    cases known : s.peek with
    | none => exact .done trivial
    | some token =>
      have keyword := State.Passes.next known
      dsimp only
      cases token.kind with
      | elseIfKeyword =>
        simp only [bind_apply, advance_apply, Outcome.bind_done]
        refine (expression_passes .outside 0).bind fun condition s₁ first => ?_
        refine (expectSeparator_stays _).andThen fun _ s₂ stays => ?_
        refine (block_reaches _).andThen fun body s₃ second => .done ?_
        exact keyword.before (first.reaches.trans (stays ▸ second))
      | elseKeyword =>
        simp only [bind_apply, advance_apply, Outcome.bind_done]
        exact Turn.leaves_takes
      | _ => exact .done trivial

/-- A name of a `global`. -/
def namesRound (_ : Nat) (_ : Unit) : Parser (Turn Unit (List Ident)) := do
  if (← peekKind) = some .ident then
    let name ← expectUsed
    return .again () (name :: ·)
  else return .leave []

/-- Names are read in a loop, one of them in each round. -/
theorem names_loops : Loops (fun steps _ => namesFrom steps) namesRound where
  unfolds steps _ s := by
    refine namesFrom_succ.trans ?_
    simp only [namesRound, bind_apply, peekKind_apply, Outcome.bind_done]
    split
    · rw [bind_apply, Outcome.bind_bind]
      rfl
    · rfl
  takes steps _ s := by
    simp only [namesRound, bind_apply, peekKind_apply, Outcome.bind_done]
    split
    · exact expectUsed_passes.andThen fun _ _ later => .done later
    · exact .done trivial

/-- An output of a function, a comma, or the bracket behind the last output. -/
def outputsRound (_ : Nat) (_ : Unit) : Parser (Turn Unit (List Ident)) := do
  if ← consume .rightBracket then return .leave []
  else if ← consume .comma then return .again () id
  else
    let name ← expectDeclared
    return .again () (name :: ·)

/-- Outputs in brackets are read in a loop, a name or a comma in each round. -/
theorem outputs_loops : Loops (fun steps _ => bracketedOutputs steps) outputsRound where
  unfolds steps _ s := by
    refine bracketedOutputs_succ.trans ?_
    simp only [outputsRound, bind_apply, consume_apply]
    split
    · rfl
    simp only [Outcome.bind_done, Bool.false_eq_true, ↓reduceIte, bind_apply, consume_apply]
    split
    · simp only [Outcome.bind_done, ↓reduceIte, pure_apply, Turn.follow_again_id]
    · simp only [Outcome.bind_done, Bool.false_eq_true, ↓reduceIte, bind_apply, Outcome.bind_bind]
      rfl
  takes steps _ s := by
    simp only [outputsRound, bind_apply, consume_apply]
    split
    · exact .done trivial
    simp only [Outcome.bind_done, Bool.false_eq_true, ↓reduceIte, bind_apply, consume_apply]
    split
    · next comma => exact .done (.next_of_peekKind comma)
    · exact expectDeclared_passes.bind fun _ _ later => .done later

/-- A word of a command. -/
def wordsRound (_ : Nat) (_ : Unit) : Parser (Turn Unit (List (List Token))) := fun s =>
  match s.rest with
  | [] => .done (.leave []) s
  | token :: tokens =>
    if token.kind.startsWord then
      let tail := Command.wordTail token tokens
      .done (.again () ((token :: tail.1) :: ·))
        { s with consumed := (token :: tail.1).reverse ++ s.consumed, rest := tail.2 }
    else .done (.leave []) s

/-- The words of a command are read in a loop, a word in each round. -/
theorem words_loops : Loops (fun _ _ => commandWords) wordsRound where
  unfolds _ _ s := by
    obtain ⟨consumed, _ | ⟨token, tokens⟩, scope, events⟩ := s
    · simp [wordsRound, Command.words, Turn.follow]
    by_cases starts : token.kind.startsWord = true
    · simp [wordsRound, Command.words, Turn.follow, starts]
    · simp [wordsRound, Command.words, Turn.follow, starts]
  takes _ _ s := by
    obtain ⟨consumed, _ | ⟨token, tokens⟩, scope, events⟩ := s
    · exact .done trivial
    unfold wordsRound
    dsimp only
    split
    · have word := Command.wordTail_append token tokens
      refine .done ⟨token :: (Command.wordTail token tokens).1, List.cons_ne_nil _ _, ?_, rfl⟩
      rw [List.cons_append, word]
    · exact .done trivial

end MatlabFront.Parser
