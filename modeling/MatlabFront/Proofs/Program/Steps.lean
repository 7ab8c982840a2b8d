import MatlabFront.Proofs.Program.Grammar

/-!
# One step of the parser of programs

What each function of the parser of statements and functions comes to when it has one more step. As
for expressions, the outcome depends on the next token, and these equations are what opens the
functions.
-/

namespace MatlabFront

open Surface

/-- Without a next token there is no kind of one. -/
theorem State.peekKind_of_end {s : State} (ended : s.peek = none) : s.peekKind = none := by
  have head : s.rest.head? = none := ended
  simp [State.peekKind, head]

namespace Parser

variable {steps : Nat} {dialect : Dialect} {s final : State} {token : Token}

/-- Skipping goes over all separators that come next. -/
@[simp] theorem skipSeparators_apply (s : State) :
    skipSeparators s = .done () s.skipSeparators := rfl

/-- Asking whether a separator comes next takes no token. -/
@[simp] theorem atSeparator_apply (s : State) : atSeparator s = .done s.atSeparator s := by
  unfold atSeparator State.atSeparator
  simp only [bind_apply, peekKind_apply, Outcome.bind_done]
  cases s.peekKind <;> rfl

/-- Asking for the outputs in scope takes no token. -/
@[simp] theorem outputsInScope_apply (s : State) : outputsInScope s = .done s.outputs s := rfl

/-- A demand for a separator takes none: it stays in front of the one that is there. -/
theorem expectSeparator_apply (clause : Clause) (s : State) :
    expectSeparator clause s =
      if s.atSeparator then .done () s else complain (.missingSeparator clause) s := by
  unfold expectSeparator
  simp only [bind_apply, atSeparator_apply, Outcome.bind_done]
  split <;> rfl

/-- A statement must end in front of a separator, a keyword of a block or the end of the input. -/
theorem expectTerminator_apply (s : State) :
    expectTerminator s = if s.atTerminator then .done () s else complain .missingTerminator s := by
  unfold expectTerminator State.atTerminator
  simp only [bind_apply, peekKind_apply, Outcome.bind_done]
  cases s.peekKind with
  | none => rfl
  | some kind =>
    simp only [Option.all_some]
    split <;> rfl

/-- The end of a block is read exactly where its keyword is. -/
theorem expectEnd_eq_done {block : Block} :
    expectEnd block s = .done () final ↔ s.peekKind = some .endKeyword ∧ final = s.next := by
  unfold expectEnd
  simp only [discard_apply, Outcome.bind_eq_done, expectOr_eq_done, pure_apply]
  constructor
  · rintro ⟨token, middle, ⟨known, kind, rfl⟩, ⟨⟩⟩
    exact ⟨kind ▸ State.peekKind_of_peek known, rfl⟩
  · rintro ⟨here, rfl⟩
    obtain ⟨token, known, kind⟩ := State.peek_of_peekKind here
    exact ⟨token, s.next, ⟨known, kind, rfl⟩, rfl⟩

/-- A used name is read exactly where one is written. -/
theorem expectUsed_eq_done {name : Ident} :
    expectUsed s = .done name final ↔
      ∃ token, s.peek = some token ∧ token.kind = .ident ∧ name = declared token ∧
        final = s.next.note token.text := by
  unfold expectUsed
  simp only [bind_apply, Outcome.bind_eq_done, expect_eq_done, used_apply, Outcome.done.injEq]
  constructor
  · rintro ⟨token, middle, ⟨known, kind, rfl⟩, rfl, rfl⟩
    exact ⟨token, known, kind, rfl, rfl⟩
  · rintro ⟨token, known, kind, rfl, rfl⟩
    exact ⟨token, s.next, ⟨known, kind, rfl⟩, rfl, rfl⟩

/-- A declared name is read exactly where one is written. -/
theorem expectDeclared_eq_done {name : Ident} :
    expectDeclared s = .done name final ↔
      ∃ token, s.peek = some token ∧ token.kind = .ident ∧ name = declared token ∧
        final = s.next := by
  unfold expectDeclared
  simp only [bind_apply, Outcome.bind_eq_done, expect_eq_done, pure_apply, Outcome.done.injEq]
  constructor
  · rintro ⟨token, middle, ⟨known, kind, rfl⟩, rfl, rfl⟩
    exact ⟨token, known, kind, rfl, rfl⟩
  · rintro ⟨token, known, kind, rfl, rfl⟩
    exact ⟨token, s.next, ⟨known, kind, rfl⟩, rfl, rfl⟩

/-- Only the lenient dialect goes on behind a condition without a separator. -/
theorem resynchronize_apply (s : State) :
    resynchronize dialect s =
      match dialect with
      | .strict => complain (.missingSeparator .ifCondition) s
      | .matlab => .done () s.resume := by
  cases dialect with
  | strict => rfl
  | matlab =>
    simp only [resynchronize, bind_apply, peek_apply, Outcome.bind_done, State.resume]
    cases s.peek <;> rfl

/-- The condition of an `if` is an expression with a separator behind it, or with what is read over.
-/
theorem ifCondition_apply (s : State) :
    ifCondition steps dialect s =
      (wholeExpression steps s).bind fun condition s₁ =>
        if s₁.atSeparator then .done condition s₁
        else (resynchronize dialect s₁).bind fun _ => pure condition := by
  simp only [ifCondition, bind_apply]
  congr 1
  funext condition s₁
  simp only [bind_apply, atSeparator_apply, Outcome.bind_done]
  split <;> rfl

/-- An equals sign behind an expression makes it the left side of an assignment. -/
theorem assignmentOrExpression_apply (s : State) :
    assignmentOrExpression steps s =
      (wholeExpression steps s).bind fun left s₁ =>
        match s₁.peek with
        | some token =>
          if token.kind = .assign then
            (wholeExpression steps s₁.next).bind fun value =>
              ofExcept (Assignment.statement left value token.pos)
          else .done (.eval left left.pos) s₁
        | none => .done (.eval left left.pos) s₁ := by
  simp only [assignmentOrExpression, bind_apply]
  congr 1
  funext left s₁
  simp only [bind_apply, peek_apply, Outcome.bind_done]
  cases s₁.peek with
  | none => rfl
  | some token =>
    dsimp only
    split <;> simp

/-- Only the lenient dialect reads commands. -/
theorem plainStatement_apply (s : State) :
    plainStatement steps dialect s =
      match dialect with
      | .strict => assignmentOrExpression steps s
      | .matlab =>
        if Command.begins s.rest then command s else assignmentOrExpression steps s := by
  cases dialect with
  | strict => rfl
  | matlab =>
    simp only [plainStatement, bind_apply, atCommand_apply, Outcome.bind_done]
    split <;> rfl

/-- Names go on while a name comes next. -/
theorem namesFrom_succ :
    namesFrom (steps + 1) s =
      if s.peekKind = some .ident then
        (expectUsed s).bind fun name => do return name :: (← namesFrom steps)
      else .done [] s := by
  simp only [namesFrom, bind_apply, peekKind_apply, Outcome.bind_done]
  split <;> rfl

/-- The part of a header that stands in its parentheses, if there are any. -/
theorem forHeader_apply (s : State) :
    forHeader steps s =
      (expectUsed (if s.headerEnclosed then s.next else s)).bind fun var => do
        discard (expect .assign)
        let range ← wholeExpression steps
        if s.headerEnclosed then discard (expect .rightParen)
        expectSeparator .forHeader
        return (var, range) := by
  have enclosed : (s.peekKind = some .leftParen ∧ s.secondKind = some .ident ∧
      s.thirdKind = some .assign) ↔ s.headerEnclosed = true := by
    simp [State.headerEnclosed, and_assoc]
  simp only [forHeader, bind_apply, peekKind_apply, secondKind_apply, thirdKind_apply,
    Outcome.bind_done, enclosed]
  cases s.headerEnclosed <;> simp

/-- A block ends in front of a keyword that ends it or at the end of the input. It holds no
function. -/
theorem block_succ {ends : Kind → Bool} :
    block (steps + 1) dialect ends s =
      match s.skipSeparators.peekKind with
      | none => .done [] s.skipSeparators
      | some kind =>
        if ends kind then .done [] s.skipSeparators
        else if kind = .functionKeyword then complain .nestedFunction s.skipSeparators
        else if kind.isBlockKeyword then complain .misplacedBlockKeyword s.skipSeparators
        else
          (statement steps dialect s.skipSeparators).bind fun first => do
            return first ++ (← block steps dialect ends) := by
  simp only [block, bind_apply, skipSeparators_apply, peekKind_apply, Outcome.bind_done]
  cases s.skipSeparators.peekKind with
  | none => rfl
  | some kind =>
    dsimp only
    split
    · rfl
    split
    · rfl
    split <;> rfl

/-- A statement must be ended by what stands behind it. -/
theorem statement_succ :
    statement (steps + 1) dialect s =
      (openStatement steps dialect s).bind fun statements s₁ =>
        if s₁.atTerminator then .done statements s₁ else complain .missingTerminator s₁ := by
  simp only [statement, bind_apply]
  congr 1
  funext statements s₁
  simp only [bind_apply, expectTerminator_apply]
  split <;> rfl

/-- The next token decides how a statement is read. -/
theorem openStatement_of_peek (known : s.peek = some token) :
    openStatement (steps + 1) dialect s =
      match token.kind with
      | .ifKeyword =>
        (ifCondition steps dialect s.next).bind fun condition => do
          let body ← block steps dialect endsBranch
          let otherwise ← elseBranch steps dialect
          expectEnd .ifBlock
          return [.branch (.mk condition body otherwise token.pos)]
      | .whileKeyword =>
        (wholeExpression steps s.next).bind fun condition => do
          expectSeparator .whileCondition
          let body ← block steps dialect (· == .endKeyword)
          expectEnd .whileBlock
          return [.whileLoop condition body token.pos]
      | .forKeyword =>
        (forHeader steps s.next).bind fun head => do
          let body ← block steps dialect (· == .endKeyword)
          expectEnd .forBlock
          return [.forLoop head.1 head.2 body token.pos]
      | .switchKeyword =>
        (wholeExpression steps s.next).bind fun subject => do
          expectSeparator .switchSubject
          let chain ← cases steps dialect
          expectEnd .switchBlock
          match chain.1 with
          | [] => pure ()
          | first :: _ => report (.switchLowered first.pos.line)
          return (CaseChain.lower subject (.ofClauses chain.1 chain.2)).statements
      | .tryKeyword =>
        (block steps dialect endsTry s.next).bind fun body => do
          let handler ← if ← consume .catchKeyword then block steps dialect (· == .endKeyword)
            else pure []
          expectEnd .tryBlock
          return [.tryCatch body handler token.pos]
      | .globalKeyword =>
        (globalNames steps s.next).bind fun names => pure [.global names token.pos]
      | .breakKeyword => .done [.breakLoop token.pos] s.next
      | .continueKeyword => .done [.continueLoop token.pos] s.next
      | .returnKeyword => .done [.leave s.outputs token.pos] s.next
      | _ => (plainStatement steps dialect s).bind fun plain => pure [plain] := by
  simp only [openStatement, bind_apply, peek_apply, Outcome.bind_done, known]
  cases token.kind <;>
    simp only [bind_apply, advance_apply, Outcome.bind_done, pure_apply, outputsInScope_apply]
  all_goals rfl

/-- A token that is no keyword of a statement begins one without a keyword. -/
theorem openStatement_of_plain (plain : startsPlain s.peekKind = true) :
    openStatement (steps + 1) dialect s =
      (plainStatement steps dialect s).bind fun written => pure [written] := by
  cases known : s.peek with
  | none => simp only [openStatement, bind_apply, peek_apply, Outcome.bind_done, known]
  | some token =>
    rw [State.peekKind_of_peek known] at plain
    rw [openStatement_of_peek known]
    cases kind : token.kind <;> first | rfl | (rw [kind] at plain; cases plain)

/-- The next token decides how an `if` goes on behind its first body. -/
theorem elseBranch_of_peek (known : s.peek = some token) :
    elseBranch (steps + 1) dialect s =
      match token.kind with
      | .elseIfKeyword =>
        (wholeExpression steps s.next).bind fun condition => do
          expectSeparator .elseIfCondition
          let body ← block steps dialect endsBranch
          let otherwise ← elseBranch steps dialect
          return .branch (.mk condition body otherwise token.pos)
      | .elseKeyword =>
        (block steps dialect (· == .endKeyword) s.next).bind fun body => pure (.block body)
      | _ => .done (.block []) s := by
  simp only [elseBranch, bind_apply, peek_apply, Outcome.bind_done, known]
  cases token.kind <;> simp only [bind_apply, advance_apply, Outcome.bind_done, pure_apply]

/-- Without a keyword that goes on with an `if` nothing follows its first body. -/
theorem elseBranch_of_ne (noElseIf : s.peekKind ≠ some .elseIfKeyword)
    (noElse : s.peekKind ≠ some .elseKeyword) :
    elseBranch (steps + 1) dialect s = .done (.block []) s := by
  cases known : s.peek with
  | none => simp only [elseBranch, bind_apply, peek_apply, Outcome.bind_done, known, pure_apply]
  | some token =>
    rw [State.peekKind_of_peek known] at noElseIf noElse
    rw [elseBranch_of_peek known]
    split
    · next kind => exact absurd (congrArg some kind) noElseIf
    · next kind => exact absurd (congrArg some kind) noElse
    · rfl

/-- The next token behind some separators decides how a switch goes on. -/
theorem cases_of_peek (known : s.skipSeparators.peek = some token) :
    cases (steps + 1) dialect s =
      match token.kind with
      | .caseKeyword =>
        (wholeExpression steps s.skipSeparators.next).bind fun value => do
          expectSeparator .caseValue
          let body ← block steps dialect endsCase
          let chain ← cases steps dialect
          return (⟨value, body, token.pos⟩ :: chain.1, chain.2)
      | .otherwiseKeyword =>
        (block steps dialect (· == .endKeyword) s.skipSeparators.next).bind fun body =>
          pure ([], some body)
      | _ => .done ([], none) s.skipSeparators := by
  simp only [cases, bind_apply, skipSeparators_apply, peek_apply, Outcome.bind_done, known]
  cases token.kind <;> simp only [bind_apply, advance_apply, Outcome.bind_done, pure_apply]

/-- Without a keyword that goes on with a switch there are no cases. -/
theorem cases_of_ne (noCase : s.skipSeparators.peekKind ≠ some .caseKeyword)
    (noOtherwise : s.skipSeparators.peekKind ≠ some .otherwiseKeyword) :
    cases (steps + 1) dialect s = .done ([], none) s.skipSeparators := by
  cases known : s.skipSeparators.peek with
  | none =>
    simp only [cases, bind_apply, skipSeparators_apply, peek_apply, Outcome.bind_done, known,
      pure_apply]
  | some token =>
    rw [State.peekKind_of_peek known] at noCase noOtherwise
    rw [cases_of_peek known]
    split
    · next kind => exact absurd (congrArg some kind) noCase
    · next kind => exact absurd (congrArg some kind) noOtherwise
    · rfl

/-- Outputs in brackets go on up to the closing one, over commas wherever they stand. -/
theorem bracketedOutputs_succ :
    bracketedOutputs (steps + 1) s =
      if s.peekKind = some .rightBracket then .done [] s.next
      else if s.peekKind = some .comma then bracketedOutputs steps s.next
      else (expectDeclared s).bind fun name => do return name :: (← bracketedOutputs steps) := by
  simp only [bracketedOutputs, bind_apply, consume_apply]
  split
  · rfl
  · simp only [Outcome.bind_done, Bool.false_eq_true, ↓reduceIte, bind_apply, consume_apply]
    split <;> rfl

/-- Outputs stand in brackets, or are a single name in front of an equals sign, or are none. -/
theorem functionOutputs_apply (s : State) :
    functionOutputs steps s =
      if s.peekKind = some .leftBracket then
        (bracketedOutputs steps s.next).bind fun outputs => do
          discard (expect .assign)
          return outputs
      else if s.peekKind = some .ident ∧ s.secondKind = some .assign then
        (expectDeclared s).bind fun output s₁ => .done [output] s₁.next
      else .done [] s := by
  simp only [functionOutputs, bind_apply, consume_apply]
  split
  · rfl
  · simp only [Outcome.bind_done, Bool.false_eq_true, ↓reduceIte, bind_apply, peekKind_apply,
      secondKind_apply]
    split
    · simp only [bind_apply]
      congr 1
      funext output s₁
      simp
    · rfl

/-- The head of a function is its outputs, its name and its parameters. -/
theorem functionHead_apply (pos : Position) (s : State) :
    functionHead steps pos s =
      (functionOutputs steps s).bind fun outputs s₁ =>
        (expectDeclared s₁).bind fun name s₂ =>
          (if s₂.peekKind = some .leftParen then parameters steps s₂ else .done [] s₂).bind
            fun params => pure ⟨name, params, outputs, false, pos⟩ := by
  simp only [functionHead, bind_apply]
  congr 1
  funext outputs s₁
  simp only [bind_apply]
  congr 1
  funext name s₂
  simp only [bind_apply, peekKind_apply, Outcome.bind_done]
  split <;> rfl

/-- A function is its head, its body in a scope of its own, and the keyword behind it, if there. -/
theorem function_apply (pos : Position) (s : State) :
    function steps dialect pos s =
      (functionHead steps pos s).bind fun head s₁ =>
        (block steps dialect endsFunction (s₁.enter head)).bind fun body s₂ =>
          let whole := Function.close head body (s₂.scope.getD ⟨head.outputs, false⟩)
          .done whole (s₂.leave.log
            (.functionClosed head.name.name whole.body.length whole.head.usesNargin)) := by
  simp only [function, bind_apply]
  congr 1
  funext head s₁
  simp only [bind_apply, report_apply, Outcome.bind_done, enterScope]
  congr 1
  funext body s₂
  rw [bind_apply, leaveScope, Outcome.bind_done, discard_bind, consume_apply, State.leave]
  split <;> rfl

/-- The top of a program is functions and statements up to the end of the input. -/
theorem topLevel_succ :
    topLevel (steps + 1) dialect s =
      match s.skipSeparators.peek with
      | none => .done [] s.skipSeparators
      | some token =>
        if token.kind = .functionKeyword then
          (function steps dialect token.pos s.skipSeparators.next).bind fun first => do
            return .function first :: (← topLevel steps dialect)
        else if token.kind.isBlockKeyword then complain .strayBlockKeyword s.skipSeparators
        else
          (statement steps dialect s.skipSeparators).bind fun first => do
            return first ++ (← topLevel steps dialect) := by
  simp only [topLevel, bind_apply, skipSeparators_apply, peek_apply, Outcome.bind_done]
  cases s.skipSeparators.peek with
  | none => rfl
  | some token =>
    dsimp only
    split
    · simp
    split <;> rfl

end Parser

end MatlabFront
