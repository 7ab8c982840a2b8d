import MatlabFront.Parser.Program
import MatlabFront.Proofs.Checked.Expression
import Mathlib.Algebra.Group.Nat.Defs

/-!
# Programs in machine words

The functions that read commands, statements and programs, with their checks. Commands are looked
for by the index of each word and read token by token, and a function is read inside a scope of its
own.
-/

namespace MatlabFront.Checked

section Command

/-- The length of a word some places ahead, of which some tokens have been counted. -/
def wordLengthFrom (start : Nat) (last : Token) (length : Nat) (fuel : Nat) : Reader Nat :=
  match fuel with
  | 0 => exhausted
  | fuel + 1 => do
    match ← peekAt (← machineWord (start + length)) with
    | some token =>
      if token.kind.startsWord || token.kind == .dot then
        if ← adjacent last token then wordLengthFrom start token (← machineWord (length + 1)) fuel
        else return length
      else return length
    | none => return length

/-- The number of tokens in the word some places ahead, zero if there is none. -/
def wordLength (start : Nat) : Reader Nat := do
  match ← peekAt start with
  | some first => if first.kind.startsWord then rounds (wordLengthFrom start first 1) else return 0
  | none => return 0

/-- How far the words reach that begin some places ahead, unless one has no gap in front of it. -/
def lookAheadFrom (last : Token) (start : Nat) (fuel : Nat) : Reader (Option Nat) :=
  match fuel with
  | 0 => exhausted
  | fuel + 1 => do
    let length ← wordLength start
    if length = 0 then return some start
    else
      match ← peekAt start, ← peekAt (← minus (← machineWord (start + length)) 1) with
      | some first, some final =>
        if ← adjacent last first then return none
        else lookAheadFrom final (← machineWord (start + length)) fuel
      | _, _ => return some start

/-- Whether a command comes next. -/
def atCommand : Reader Bool := do
  match ← peek with
  | some name =>
    if name.kind = .ident then
      match ← rounds (lookAheadFrom name 1) with
      | none => return false
      | some ahead =>
        if ahead = 1 then return false
        else
          match ← kindAt ahead with
          | none => return true
          | some kind => return kind.isSeparator || kind.isBlockKeyword
    else return false
  | none => return false

/-- The next tokens, at most some number of them. -/
def readWord (length : Nat) : Reader (List Token) :=
  match length with
  | 0 => return []
  | length + 1 => do
    match ← next with
    | some token => return token :: (← readWord length)
    | none => readWord length

/-- The words that come next, each read to its end. -/
def readWordsFrom (fuel : Nat) : Reader (List (List Token)) :=
  match fuel with
  | 0 => exhausted
  | fuel + 1 => do
    let length ← wordLength 0
    if length = 0 then return []
    else return (← readWord length) :: (← readWordsFrom fuel)

/-- The text that a word passes. -/
def wordText (word : List Token) : Reader String :=
  match word with
  | [token] => if token.kind = .string then unquote token.text else return token.text
  | _ => return String.join (word.map (·.text))

/-- The string that a word passes. -/
def argument (fallback : Position) (word : List Token) : Reader Expr := do
  return .string (← wordText word) (Command.wordPos fallback word)

/-- The variables that the words of `load` name. -/
def loadTargets (fallback : Position) : List (List Token) → Reader (List Target)
  | [] => return []
  | word :: words => do
    let target ← do
      match word with
      | [token] =>
        if token.kind = .ident then pure (Target.var (← used token))
        else reject (.wordNotAVariable (← wordText word)) token.pos
      | _ => reject (.wordNotAVariable (← wordText word)) (Command.wordPos fallback word)
    return target :: (← loadTargets fallback words)

/-- The name of a command, which is known to be there. -/
def commandName : Reader Token := do
  match ← peek with
  | some token =>
    if token.kind = .ident then
      step
      return token
    else breach .missingCommandName
  | none => breach .missingCommandName

/-- What a name and the words behind it come to. -/
def commandOf (callee : Ident) (found : List (List Token)) : Reader Stmt := do
  match found with
  | file :: target :: more =>
    if callee.name = "load" then
      let file ← argument callee.pos file
      let targets ← loadTargets callee.pos (target :: more)
      return .call (.mk (.ident callee) [file] (some targets) callee.pos)
    else
      return .call (.mk (.ident callee) (← found.mapM (argument callee.pos)) none callee.pos)
  | _ => return .call (.mk (.ident callee) (← found.mapM (argument callee.pos)) none callee.pos)

/-- The command that comes next. -/
def command : Reader Stmt := do
  let callee ← used (← commandName)
  let found ← rounds readWordsFrom
  report (.command callee.name found.length)
  commandOf callee found

end Command

section Parts

/-- Reads on behind a malformed `if` condition. The strict dialect complains instead. -/
def resynchronize (dialect : Dialect) : Reader Unit := do
  match dialect with
  | .strict => complain (.missingSeparator .ifCondition)
  | .matlab =>
    match ← peek with
    | some token => report (.resynchronized token.pos.line token.text)
    | none => return ()
    skipWhile fun kind => !(kind.startsStatement || kind.isSeparator || kind.isBlockKeyword)

/-- The condition of an `if` and what separates it from the body. -/
def ifCondition (fuel : Nat) (dialect : Dialect) : Reader Expr := do
  let condition ← expression fuel 0
  if ← atSeparator then return condition
  else
    resynchronize dialect
    return condition

/-- An assignment, or an expression on its own. -/
def assignmentOrExpression (fuel : Nat) : Reader Stmt := do
  let left ← expression fuel 0
  match ← peek with
  | some token =>
    if token.kind = .assign then
      step
      let value ← expression fuel 0
      ofExcept (Assignment.statement left value token.pos)
    else return .eval left left.pos
  | none => return .eval left left.pos

/-- A statement without a keyword. -/
def plainStatement (fuel : Nat) (dialect : Dialect) : Reader Stmt := do
  match dialect with
  | .strict => assignmentOrExpression fuel
  | .matlab => if ← atCommand then command else assignmentOrExpression fuel

/-- Names as long as they come. -/
def namesFrom (fuel : Nat) : Reader (List Ident) :=
  match fuel with
  | 0 => exhausted
  | fuel + 1 => do
    if (← peekKind) = some .ident then
      let name ← expectUsed
      return name :: (← namesFrom fuel)
    else return []

/-- The names behind the keyword `global`, at least one. -/
def globalNames (fuel : Nat) : Reader (List Ident) := do
  let first ← expectUsed
  return first :: (← namesFrom fuel)

/-- The header of a `for` is in parentheses. -/
def headerEnclosed : Reader Bool := do
  if (← peekKind) = some .leftParen then
    if (← kindAt 1) = some .ident then return (← kindAt 2) = some .assign
    else return false
  else return false

/-- The header of a `for`: its variable and the expression that it runs over. -/
def forHeader (fuel : Nat) : Reader (Ident × Expr) := do
  let enclosed ← headerEnclosed
  if enclosed then step
  let var ← expectUsed
  discard (expect .assign)
  let range ← expression fuel 0
  if enclosed then discard (expect .rightParen)
  expectSeparator .forHeader
  return (var, range)

/-- The outputs that a `return` carries here. -/
def outputsInScope : Reader (List Ident) := look (·.scopes.head?.elim [] (·.outputs))

end Parts

mutual

/-- The statements up to a keyword that satisfies a test, or to the end of the input. -/
def block (fuel : Nat) (dialect : Dialect) (ends : Kind → Bool) : Reader (List Stmt) :=
  match fuel with
  | 0 => exhausted
  | fuel + 1 => do
    skipSeparators
    match ← peekKind with
    | none => return []
    | some kind =>
      if ends kind then return []
      else if kind = .functionKeyword then complain .nestedFunction
      else if kind.isBlockKeyword then complain .misplacedBlockKeyword
      else
        let first ← statement fuel dialect
        return first ++ (← block fuel dialect ends)

/-- A statement, behind which a statement can end. -/
def statement (fuel : Nat) (dialect : Dialect) : Reader (List Stmt) :=
  match fuel with
  | 0 => exhausted
  | fuel + 1 => do
    let statements ← openStatement fuel dialect
    expectTerminator
    return statements

/-- A statement, whatever stands behind it. -/
def openStatement (fuel : Nat) (dialect : Dialect) : Reader (List Stmt) :=
  match fuel with
  | 0 => exhausted
  | fuel + 1 => do
    match ← peekKind with
    | some .ifKeyword =>
      let keyword ← expect .ifKeyword
      let condition ← ifCondition fuel dialect
      let body ← block fuel dialect Parser.endsBranch
      let otherwise ← elseBranch fuel dialect
      expectEnd .ifBlock
      return [.branch (.mk condition body otherwise keyword.pos)]
    | some .whileKeyword =>
      let keyword ← expect .whileKeyword
      let condition ← expression fuel 0
      expectSeparator .whileCondition
      let body ← block fuel dialect (· == .endKeyword)
      expectEnd .whileBlock
      return [.whileLoop condition body keyword.pos]
    | some .forKeyword =>
      let keyword ← expect .forKeyword
      let (var, range) ← forHeader fuel
      let body ← block fuel dialect (· == .endKeyword)
      expectEnd .forBlock
      return [.forLoop var range body keyword.pos]
    | some .switchKeyword =>
      let _ ← expect .switchKeyword
      let subject ← expression fuel 0
      expectSeparator .switchSubject
      let (clauses, otherwise) ← cases fuel dialect
      expectEnd .switchBlock
      match clauses with
      | [] => pure ()
      | first :: _ => report (.switchLowered first.pos.line)
      return (CaseChain.lower subject (.ofClauses clauses otherwise)).statements
    | some .tryKeyword =>
      let keyword ← expect .tryKeyword
      let body ← block fuel dialect Parser.endsTry
      let handler ← if ← consume .catchKeyword then block fuel dialect (· == .endKeyword)
        else pure []
      expectEnd .tryBlock
      return [.tryCatch body handler keyword.pos]
    | some .globalKeyword =>
      let keyword ← expect .globalKeyword
      return [.global (← globalNames fuel) keyword.pos]
    | some .breakKeyword => return [.breakLoop (← expect .breakKeyword).pos]
    | some .continueKeyword => return [.continueLoop (← expect .continueKeyword).pos]
    | some .returnKeyword =>
      let keyword ← expect .returnKeyword
      return [.leave (← outputsInScope) keyword.pos]
    | _ => return [← plainStatement fuel dialect]

/-- What follows the first body of an `if`. -/
def elseBranch (fuel : Nat) (dialect : Dialect) : Reader Else :=
  match fuel with
  | 0 => exhausted
  | fuel + 1 => do
    match ← peek with
    | none => return .block []
    | some token =>
      match token.kind with
      | .elseIfKeyword =>
        step
        let condition ← expression fuel 0
        expectSeparator .elseIfCondition
        let body ← block fuel dialect Parser.endsBranch
        let otherwise ← elseBranch fuel dialect
        return .branch (.mk condition body otherwise token.pos)
      | .elseKeyword =>
        step
        return .block (← block fuel dialect (· == .endKeyword))
      | _ => return .block []

/-- The cases of a switch and the statements for the case that none fits. -/
def cases (fuel : Nat) (dialect : Dialect) : Reader (List CaseClause × Option (List Stmt)) :=
  match fuel with
  | 0 => exhausted
  | fuel + 1 => do
    skipSeparators
    match ← peek with
    | none => return ([], none)
    | some token =>
      match token.kind with
      | .caseKeyword =>
        step
        let value ← expression fuel 0
        expectSeparator .caseValue
        let body ← block fuel dialect Parser.endsCase
        let (clauses, otherwise) ← cases fuel dialect
        return (⟨value, body, token.pos⟩ :: clauses, otherwise)
      | .otherwiseKeyword =>
        step
        return ([], some (← block fuel dialect (· == .endKeyword)))
      | _ => return ([], none)

end

section Functions

/-- The outputs in brackets of a function, behind the opening one. -/
def bracketedOutputs (fuel : Nat) : Reader (List Ident) :=
  match fuel with
  | 0 => exhausted
  | fuel + 1 => do
    if ← consume .rightBracket then return []
    else if ← consume .comma then bracketedOutputs fuel
    else
      let name ← expectDeclared
      return name :: (← bracketedOutputs fuel)

/-- Whether a single output is declared here: a name and an equals sign behind it. -/
def atOutput : Reader Bool := do
  if (← peekKind) = some .ident then return (← kindAt 1) = some .assign
  else return false

/-- The outputs that a function declares, and the equals sign behind them. -/
def functionOutputs (fuel : Nat) : Reader (List Ident) := do
  if ← consume .leftBracket then
    let outputs ← bracketedOutputs fuel
    discard (expect .assign)
    return outputs
  else if ← atOutput then
    let output ← expectDeclared
    step
    return [output]
  else return []

/-- The head of a function, behind its keyword. -/
def functionHead (fuel : Nat) (pos : Position) : Reader Header := do
  let outputs ← functionOutputs fuel
  let name ← expectDeclared
  let params ← if (← peekKind) = some .leftParen then parameters fuel else pure []
  return ⟨name, params, outputs, false, pos⟩

/-- A function. -/
def function (fuel : Nat) (dialect : Dialect) : Reader Function := do
  let keyword ← expect .functionKeyword
  let head ← functionHead fuel keyword.pos
  report (.functionOpened head.name.name)
  let (body, scope) ← inFunction head.outputs (block fuel dialect Parser.endsFunction)
  discard (consume .endKeyword)
  let whole := Function.close head body scope.noted
  report (.functionClosed head.name.name whole.body.length whole.head.usesNargin)
  return whole

/-- The statements and functions of a program, to the end of the input. -/
def topLevel (fuel : Nat) (dialect : Dialect) : Reader (List Stmt) :=
  match fuel with
  | 0 => exhausted
  | fuel + 1 => do
    skipSeparators
    match ← peekKind with
    | none => return []
    | some kind =>
      if kind = .functionKeyword then
        let first ← function fuel dialect
        return .function first :: (← topLevel fuel dialect)
      else if kind.isBlockKeyword then complain .strayBlockKeyword
      else
        let first ← statement fuel dialect
        return first ++ (← topLevel fuel dialect)

end Functions

/-- A program of some dialect. -/
def program (dialect : Dialect) : Reader Program := fun cursor =>
  (do return ⟨← topLevel (Parser.steps cursor.tokens) dialect⟩ : Reader Program) cursor

/-- The cursor in front of some tokens, on a machine whose words have some bits. -/
def Cursor.start (width : Nat) (tokens : List Token) : Cursor := ⟨2 ^ width, tokens, 0, [], [], []⟩

/-- The reading of a program from which a verdict came. -/
def Verdict.reading : Verdict Program → Except Breach Reading
  | .done program cursor =>
    .ok ⟨some (.ok program), (.finished program.body.length :: cursor.events).reverse⟩
  | .failed failure cursor => .ok ⟨some (.error failure), cursor.events.reverse⟩
  | .breached breach => .error breach
  | .exhausted => .ok ⟨none, []⟩

/-- Reads tokens as a program of a dialect, unless it comes to a breach. -/
def reading (width : Nat) (dialect : Dialect) (tokens : List Token) : Except Breach Reading :=
  match tokens.find? (·.kind == .error) with
  | some bad => .ok ⟨some (.error (.syntaxFault (.invalidToken bad.text) (some bad) bad.pos)), []⟩
  | none => do
    let reading ← (program dialect (.start width tokens)).reading
    return { reading with events := .started tokens.length dialect :: reading.events }

end MatlabFront.Checked
