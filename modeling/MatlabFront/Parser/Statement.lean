import MatlabFront.Assignment
import MatlabFront.Parser.Command
import MatlabFront.Parser.Expression
import MatlabFront.Switch

/-!
# Statements

A statement begins with its keyword, or else it is a command, an assignment or an expression. Blocks
are statements between separators, up to a keyword that ends them. A statement yields a list of
statements, because a switch without cases comes to the statements of its last part.

As with expressions, every function takes the number of steps it may still go down.
-/

namespace MatlabFront.Parser

/-- Reads on behind a malformed `if` condition, up to a token that begins a statement, separates
statements or ends a block. The strict dialect complains instead. -/
def resynchronize (dialect : Dialect) : Parser Unit := do
  match dialect with
  | .strict => complain (.missingSeparator .ifCondition)
  | .matlab =>
    match ← peek with
    | some token => report (.resynchronized token.pos.line token.text)
    | none => return ()
    skipWhile fun kind => !(kind.startsStatement || kind.isSeparator || kind.isBlockKeyword)

/-- Reads the condition of an `if` and what separates it from the body. -/
def ifCondition (fuel : Nat) (dialect : Dialect) : Parser Expr := do
  let condition ← wholeExpression fuel
  if ← atSeparator then return condition
  else
    resynchronize dialect
    return condition

/-- An assignment, or an expression on its own. -/
def assignmentOrExpression (fuel : Nat) : Parser Stmt := do
  let left ← wholeExpression fuel
  match ← peek with
  | some token =>
    if token.kind = .assign then
      advance
      let value ← wholeExpression fuel
      ofExcept (Assignment.statement left value token.pos)
    else return .eval left left.pos
  | none => return .eval left left.pos

/-- A statement without a keyword. Only the lenient dialect knows commands. -/
def plainStatement (fuel : Nat) (dialect : Dialect) : Parser Stmt := do
  match dialect with
  | .strict => assignmentOrExpression fuel
  | .matlab => if ← atCommand then command else assignmentOrExpression fuel

/-- Names as long as they come, without separators in between. -/
def namesFrom (fuel : Nat) : Parser (List Ident) :=
  match fuel with
  | 0 => exhausted
  | fuel + 1 => do
    if (← peekKind) = some .ident then
      let name ← expectUsed
      return name :: (← namesFrom fuel)
    else return []

/-- The names behind the keyword `global`, at least one. -/
def globalNames (fuel : Nat) : Parser (List Ident) := do
  let first ← expectUsed
  return first :: (← namesFrom fuel)

/-- The header of a `for`: its variable and the expression that it runs over. Parentheses around the
whole header are read as such when a name and an equals sign follow the opening one. -/
def forHeader (fuel : Nat) : Parser (Ident × Expr) := do
  let enclosed := (← peekKind) = some .leftParen ∧ (← secondKind) = some .ident
    ∧ (← thirdKind) = some .assign
  if enclosed then advance
  let var ← expectUsed
  discard (expect .assign)
  let range ← wholeExpression fuel
  if enclosed then discard (expect .rightParen)
  expectSeparator .forHeader
  return (var, range)

/-- The outputs that a `return` carries here. -/
def outputsInScope : Parser (List Ident) := fun state =>
  .done (state.scope.elim [] (·.outputs)) state

/-- Reads the `end` of a block. -/
def expectEnd (block : Block) : Parser Unit := discard (expectOr (.missingEnd block) .endKeyword)

/-- The kinds that end a branch of an `if`. -/
def endsBranch : Kind → Bool
  | .elseIfKeyword | .elseKeyword | .endKeyword => true
  | _ => false

/-- The kinds that end a case of a switch. -/
def endsCase : Kind → Bool
  | .caseKeyword | .otherwiseKeyword | .endKeyword => true
  | _ => false

/-- The kinds that end the guarded part of a `try`. -/
def endsTry : Kind → Bool
  | .catchKeyword | .endKeyword => true
  | _ => false

mutual

/-- The statements up to a keyword that satisfies a test, which is left unread, or to the end of the
input. -/
def block (fuel : Nat) (dialect : Dialect) (ends : Kind → Bool) : Parser (List Stmt) :=
  match fuel with
  | 0 => exhausted
  | fuel + 1 => do
    skipSeparators
    match ← peekKind with
    | none => return []
    | some kind =>
      if ends kind then return []
      else if kind = .functionKeyword then complain .nestedFunction
      else if kind.isBlockKeyword then complain .misplacedBlockKeyword
      else
        let first ← statement fuel dialect
        return first ++ (← block fuel dialect ends)

/-- A statement, behind which a statement can end. -/
def statement (fuel : Nat) (dialect : Dialect) : Parser (List Stmt) :=
  match fuel with
  | 0 => exhausted
  | fuel + 1 => do
    let statements ← openStatement fuel dialect
    expectTerminator
    return statements

/-- A statement, whatever stands behind it. -/
def openStatement (fuel : Nat) (dialect : Dialect) : Parser (List Stmt) :=
  match fuel with
  | 0 => exhausted
  | fuel + 1 => do
    match ← peek with
    | none => return [← plainStatement fuel dialect]
    | some token =>
      match token.kind with
      | .ifKeyword =>
        advance
        let condition ← ifCondition fuel dialect
        let body ← block fuel dialect endsBranch
        let otherwise ← elseBranch fuel dialect
        expectEnd .ifBlock
        return [.branch (.mk condition body otherwise token.pos)]
      | .whileKeyword =>
        advance
        let condition ← wholeExpression fuel
        expectSeparator .whileCondition
        let body ← block fuel dialect (· == .endKeyword)
        expectEnd .whileBlock
        return [.whileLoop condition body token.pos]
      | .forKeyword =>
        advance
        let (var, range) ← forHeader fuel
        let body ← block fuel dialect (· == .endKeyword)
        expectEnd .forBlock
        return [.forLoop var range body token.pos]
      | .switchKeyword =>
        advance
        let subject ← wholeExpression fuel
        expectSeparator .switchSubject
        let (clauses, otherwise) ← cases fuel dialect
        expectEnd .switchBlock
        match clauses with
        | [] => pure ()
        | first :: _ => report (.switchLowered first.pos.line)
        return (CaseChain.lower subject (.ofClauses clauses otherwise)).statements
      | .tryKeyword =>
        advance
        let body ← block fuel dialect endsTry
        let handler ← if ← consume .catchKeyword then block fuel dialect (· == .endKeyword)
          else pure []
        expectEnd .tryBlock
        return [.tryCatch body handler token.pos]
      | .globalKeyword =>
        advance
        return [.global (← globalNames fuel) token.pos]
      | .breakKeyword =>
        advance
        return [.breakLoop token.pos]
      | .continueKeyword =>
        advance
        return [.continueLoop token.pos]
      | .returnKeyword =>
        advance
        return [.leave (← outputsInScope) token.pos]
      | _ => return [← plainStatement fuel dialect]

/-- What follows the first body of an `if`: a further condition, a last block, or nothing. -/
def elseBranch (fuel : Nat) (dialect : Dialect) : Parser Else :=
  match fuel with
  | 0 => exhausted
  | fuel + 1 => do
    match ← peek with
    | none => return .block []
    | some token =>
      match token.kind with
      | .elseIfKeyword =>
        advance
        let condition ← wholeExpression fuel
        expectSeparator .elseIfCondition
        let body ← block fuel dialect endsBranch
        let otherwise ← elseBranch fuel dialect
        return .branch (.mk condition body otherwise token.pos)
      | .elseKeyword =>
        advance
        return .block (← block fuel dialect (· == .endKeyword))
      | _ => return .block []

/-- The cases of a switch and the statements for the case that none fits. Nothing but the end of the
switch can follow those. -/
def cases (fuel : Nat) (dialect : Dialect) : Parser (List CaseClause × Option (List Stmt)) :=
  match fuel with
  | 0 => exhausted
  | fuel + 1 => do
    skipSeparators
    match ← peek with
    | none => return ([], none)
    | some token =>
      match token.kind with
      | .caseKeyword =>
        advance
        let value ← wholeExpression fuel
        expectSeparator .caseValue
        let body ← block fuel dialect endsCase
        let (clauses, otherwise) ← cases fuel dialect
        return (⟨value, body, token.pos⟩ :: clauses, otherwise)
      | .otherwiseKeyword =>
        advance
        return ([], some (← block fuel dialect (· == .endKeyword)))
      | _ => return ([], none)

end

end MatlabFront.Parser
