import MatlabFront.Proofs.Expression.Grammar

/-!
# One step of the parser of expressions

What each function of the parser comes to when it has one more step, as an outcome that depends on
the next token only. These equations open the functions; nothing else does.
-/

namespace MatlabFront.Parser

variable {steps : Nat} {nesting : Nesting} {power : Nat} {s : State} {token : Token}

/-- An expression is an operand and the operators behind it. -/
theorem expression_succ :
    expression (steps + 1) nesting power s =
      (operand steps nesting s).bind (operators steps nesting power) := rfl

/-- A loop of operators ends where no operator of its power comes next. -/
theorem operators_of_stops {left : Expr} (stops : s.Stops nesting power) :
    operators (steps + 1) nesting power left s = .done left s := by
  cases known : s.peek with
  | none => simp [operators, known]
  | some token =>
    rcases stops token known with gap | weak
    · simp [operators, known, gap]
    · cases suffix : token.kind.postfixOperator? with
      | some operator =>
        have below := weak operator.leftPower (by simp [Kind.leftPower?, suffix])
        simp only [operators, bind_apply, peek_apply, Outcome.bind_done, known, atNewElement_apply,
          suffix, below, ↓reduceIte]
        split <;> rfl
      | none =>
        cases infixes : token.kind.infixOperator? with
        | some operator =>
          have below := weak operator.leftPower (by simp [Kind.leftPower?, suffix, infixes])
          simp only [operators, bind_apply, peek_apply, Outcome.bind_done, known,
            atNewElement_apply, suffix, infixes, below, ↓reduceIte]
          split <;> rfl
        | none =>
          simp only [operators, bind_apply, peek_apply, Outcome.bind_done, known,
            atNewElement_apply, suffix, infixes]
          split <;> rfl

/-- A postfix operator of enough power is applied to the left operand. -/
theorem operators_of_postfix {left : Expr} {operator : PostfixOperator}
    (known : s.peek = some token) (gap : s.atGap nesting = false)
    (suffix : token.kind.postfixOperator? = some operator) (strong : power ≤ operator.leftPower) :
    operators (steps + 1) nesting power left s =
      (postfixNode steps left operator token.pos s).bind (operators steps nesting power) := by
  simp [operators, known, gap, suffix, Nat.not_lt.mpr strong]

/-- An infix operator of enough power takes a right operand. -/
theorem operators_of_infix {left : Expr} {operator : InfixOperator}
    (known : s.peek = some token) (gap : s.atGap nesting = false)
    (suffix : token.kind.postfixOperator? = none)
    (infixes : token.kind.infixOperator? = some operator) (strong : power ≤ operator.leftPower) :
    operators (steps + 1) nesting power left s =
      (expression steps nesting operator.rightPower s.next).bind fun right =>
        operators steps nesting power (.infixNode operator left right token.pos) := by
  simp [operators, known, gap, suffix, infixes, Nat.not_lt.mpr strong]

/-- The next token decides how an operand is read. -/
theorem operand_of_peek (known : s.peek = some token) :
    operand (steps + 1) nesting s =
      match token.kind with
      | .ident => .done (.ident (declared token)) (s.next.note token.text)
      | .number => .done (.number token.text token.pos) s.next
      | .string => .done (.string (Literal.unquote token.text) token.pos) s.next
      | .endKeyword =>
        if token.text = "end" ∧ nesting ≠ .outside then .done (.lastIndex token.pos) s.next
        else complain .endOutsideSubscript s
      | .colon =>
        if s.colonAlone nesting then .done (.colon token.pos) s.next
        else complain .colonOutsideSubscript s
      | .tilde =>
        if s.tildeAlone nesting then .done (.ident ⟨"~", token.pos⟩) s.next
        else (expression steps nesting UnaryOperator.operandPower s.next).bind fun inner =>
          pure (.unary .not inner token.pos)
      | .minus =>
        (expression steps nesting UnaryOperator.operandPower s.next).bind fun inner =>
          pure (.unary .minus inner token.pos)
      | .plus =>
        (expression steps nesting UnaryOperator.operandPower s.next).bind fun inner =>
          pure (.unary .plus inner token.pos)
      | .atSign => handle steps nesting token.pos s.next
      | .leftParen =>
        (expression steps .group 0 s.next).bind fun inner => do
          discard (expect .rightParen)
          return .parens inner token.pos
      | .leftBracket =>
        (elements steps .rightBracket false s.next).bind fun rest =>
          pure (.matrix (rowsOf rest.1 rest.2) token.pos)
      | .leftBrace =>
        (elements steps .rightBrace false s.next).bind fun rest =>
          pure (.cell (rowsOf rest.1 rest.2) token.pos)
      | .error => complain .invalidCharacter s
      | _ => complain .notAnExpression s := by
  simp only [operand, bind_apply, peek_apply, Outcome.bind_done, known]
  cases token.kind <;>
    simp only [bind_apply, advance_apply, colonStandsAlone_apply, tildeStandsAlone_apply,
      Outcome.bind_done, used_apply, pure_apply] <;>
    first | rfl | (split <;> simp)

/-- Without a token there is no operand. -/
theorem operand_of_end (none : s.peek = none) :
    operand (steps + 1) nesting s = complain .missingExpression s := by
  simp only [operand, bind_apply, peek_apply, Outcome.bind_done, none]

/-- A parenthesis opens an anonymous function and a name names one. -/
theorem handle_of_peek {pos : Position} (known : s.peek = some token) :
    handle (steps + 1) nesting pos s =
      match token.kind with
      | .leftParen =>
        (parameters steps s).bind fun params => do
          return .lambda params (← expression steps nesting lambdaBodyPower) pos
      | .ident => .done (.handle (declared token) pos) s.next
      | _ => complain .missingHandle s := by
  simp only [handle, bind_apply, peek_apply, Outcome.bind_done, known]
  cases token.kind <;>
    simp only [bind_apply, advance_apply, Outcome.bind_done, pure_apply]

/-- Without a token nothing follows the sign of a handle. -/
theorem handle_of_end {pos : Position} (none : s.peek = none) :
    handle (steps + 1) nesting pos s = complain .missingHandle s := by
  simp only [handle, bind_apply, peek_apply, Outcome.bind_done, none]

/-- The kind of the next token decides how a literal goes on. -/
theorem elements_of_peekKind {close kind : Kind} {afterElement : Bool}
    (known : s.peekKind = some kind) :
    elements (steps + 1) close afterElement s =
      if kind = close then .done ([], []) s.next
      else if kind = .semicolon ∨ kind = .newline then
        (elements steps close false s.next).bind fun rest => pure ([], rowsOf rest.1 rest.2)
      else if kind = .comma then
        if afterElement then elements steps close false s.next else complain .unexpectedComma s
      else
        (expression steps .elements 0 s).bind fun first => do
          let rest ← elements steps close true
          return (first :: rest.1, rest.2) := by
  simp only [elements, bind_apply, peekKind_apply, Outcome.bind_done, known]
  split
  · simp
  split
  · simp
  split
  · split <;> simp
  rfl

/-- Without a token a literal is not closed. -/
theorem elements_of_end {close : Kind} {afterElement : Bool} (none : s.peekKind = none) :
    elements (steps + 1) close afterElement s = complain (.unterminatedLiteral close) s := by
  simp only [elements, bind_apply, peekKind_apply, Outcome.bind_done, none]

/-- The four postfix operators. A field needs a name or a parenthesis behind its dot. -/
theorem postfixNode_succ {left : Expr} {operator : PostfixOperator} {pos : Position} :
    postfixNode (steps + 1) left operator pos s =
      match operator with
      | .call => (arguments steps .rightParen s.next).bind fun args => pure (left.apply args)
      | .cellIndex =>
        (arguments steps .rightBrace s.next).bind fun args => pure (.cellIndex left args left.pos)
      | .field =>
        match s.next.peek with
        | some token =>
          match token.kind with
          | .ident => .done (.member left (.named (declared token)) pos) s.next.next
          | .leftParen =>
            (expression steps .group 0 s.next.next).bind fun name => do
              discard (expect .rightParen)
              return .member left (.dynamic name) pos
          | _ => complain .missingField s.next
        | none => complain .missingField s.next
      | .transpose => .done (.transpose left s.marks pos) (s.skip Kind.isMark) := by
  cases operator with
  | call => simp [postfixNode]
  | cellIndex => simp [postfixNode]
  | transpose => simp [postfixNode]
  | field =>
    simp only [postfixNode, bind_apply, advance_apply, Outcome.bind_done, peek_apply]
    cases s.next.peek with
    | none => rfl
    | some token =>
      dsimp only
      cases token.kind <;> simp only [bind_apply, advance_apply, Outcome.bind_done, pure_apply]

/-- Arguments are none at all in front of the closing bracket, and a list elsewhere. -/
theorem arguments_succ {close : Kind} :
    arguments (steps + 1) close s =
      if s.peekKind = some close then .done [] s.next else argumentsFrom steps close s := by
  simp only [arguments, bind_apply, consume_apply]
  split <;> simp

/-- A list of arguments goes on behind each comma. -/
theorem argumentsFrom_succ {close : Kind} :
    argumentsFrom (steps + 1) close s =
      (expression steps .group 0 s).bind fun first s₁ =>
        if s₁.peekKind = some .comma then
          (argumentsFrom steps close s₁.next).bind fun later => pure (first :: later)
        else (expect close s₁).bind fun _ => pure [first] := by
  simp only [argumentsFrom, bind_apply]
  congr 1
  funext first s₁
  simp only [bind_apply, consume_apply]
  split
  · simp
  · exact discard_bind _ _ _

/-- Parameters are none at all in front of the closing parenthesis, and a list elsewhere. -/
theorem parameters_apply :
    parameters steps s =
      (expect .leftParen s).bind fun _ s₁ =>
        if s₁.peekKind = some .rightParen then .done [] s₁.next else parametersFrom steps s₁ := by
  simp only [parameters, discard_bind]
  congr 1
  funext token s₁
  simp only [bind_apply, consume_apply]
  split <;> simp

/-- A parameter is a name or a tilde. -/
theorem parametersFrom_succ :
    parametersFrom (steps + 1) s =
      match s.param? with
      | some param =>
        if s.next.peekKind = some .comma then
          (parametersFrom steps s.next.next).bind fun later => pure (param :: later)
        else (expect .rightParen s.next).bind fun _ => pure [param]
      | none => complain (.missing .ident) s := by
  have rest (param : Param) (s₁ : State) :
      (do
        if ← consume .comma then return param :: (← parametersFrom steps)
        else
          discard (expect .rightParen)
          return [param] : Parser (List Param)) s₁ =
        if s₁.peekKind = some .comma then
          (parametersFrom steps s₁.next).bind fun later => pure (param :: later)
        else (expect .rightParen s₁).bind fun _ => pure [param] := by
    simp only [bind_apply, consume_apply]
    split
    · simp
    · exact discard_bind _ _ _
  rw [parametersFrom]
  cases known : s.peek with
  | none =>
    have missing : s.peekKind ≠ some .ident := by
      intro here
      obtain ⟨token, found, -⟩ := State.peek_of_peekKind here
      simp [known] at found
    simp [State.param?, known, expectDeclared, expect_of_ne missing]
  | some token =>
    by_cases tilde : token.kind = .tilde
    · simp only [State.param?, known, tilde, ↓reduceIte, bind_apply, peek_apply,
        Outcome.bind_done, advance_apply, pure_apply]
      exact rest _ _
    by_cases name : token.kind = .ident
    · simp only [State.param?, known, name, ↓reduceIte, reduceCtorEq, bind_apply,
        peek_apply, Outcome.bind_done, expectDeclared, expect_eq_done.mpr ⟨known, name, rfl⟩,
        pure_apply]
      exact rest _ _
    · have missing : s.peekKind ≠ some .ident := by
        simpa [State.peekKind_of_peek known] using name
      simp [State.param?, known, tilde, name, expectDeclared, expect_of_ne missing]

end MatlabFront.Parser
