import MatlabFront.Proofs.Checked.Cursor

/-!
# Expressions in machine words

The functions that read expressions, with their checks. Binding powers are bytes, what surrounds an
expression is the stack of open brackets, the operator in front of an operand is looked up again in
the table, and the member behind a dot is an operand that is taken apart afterwards. An operand is
read both inside an expression and behind a dot, so that it is one definition over the readers of
its parts.
-/

namespace MatlabFront.Checked

section Lookahead

/-- What it means for an expression to stand here. -/
def nesting : Reader Nesting := look (innermost ·.brackets)

/-- The token behind the next one stands directly behind it. -/
def touchesSecond (token : Token) : Reader Bool := do
  match ← peekAt 1 with
  | some following => adjacent token following
  | none => return false

/-- The next token begins a new element of the literal around it. -/
def atNewElement : Reader Bool := do
  if (← nesting) = .elements then
    match ← previous, ← peek with
    | some last, some token =>
      if ← adjacent last token then return false
      else
        match token.kind with
        | .leftParen | .leftBrace => return true
        | .plus | .minus => touchesSecond token
        | _ => return false
    | _, _ => return false
  else return false

/-- A colon here is a whole subscript. -/
def colonStandsAlone : Reader Bool := do
  if (← nesting) = .group then
    match ← kindAt 1 with
    | some .comma | some .rightParen | some .rightBrace => return true
    | _ => return false
  else return false

/-- A tilde here is an output to ignore. -/
def tildeStandsAlone : Reader Bool := do
  if (← nesting) = .elements then
    match ← kindAt 1 with
    | some .comma | some .rightBracket => return true
    | _ => return false
  else return false

end Lookahead

/-- The parameters behind the opening parenthesis of a list that is not empty. -/
def parametersFrom (fuel : Nat) : Reader (List Param) :=
  match fuel with
  | 0 => exhausted
  | fuel + 1 => do
    let param ← do
      match ← peek with
      | some token =>
        if token.kind = .tilde then
          step
          pure (Param.mk "~" token.pos)
        else pure (Param.ofIdent (← expectDeclared))
      | none => pure (Param.ofIdent (← expectDeclared))
    if ← consume .comma then return param :: (← parametersFrom fuel)
    else
      discard (expect .rightParen)
      return [param]

/-- A list of parameters in parentheses. -/
def parameters (fuel : Nat) : Reader (List Param) := do
  discard (expect .leftParen)
  if ← consume .rightParen then return [] else parametersFrom fuel

/-- Reads a run of transpose marks and puts their texts behind another. -/
def marksFrom (marks : String) (fuel : Nat) : Reader String :=
  match fuel with
  | 0 => exhausted
  | fuel + 1 => do
    match ← peek with
    | some token =>
      if token.kind = .transpose ∨ token.kind = .dotTranspose then
        advance
        marksFrom (marks ++ token.text) fuel
      else return marks
    | none => return marks

/-- The member of a tree that another names: a name, or what stands in parentheses. -/
def member (left name : Expr) (pos : Position) : Reader Expr :=
  match name with
  | .ident name => return .member left (.named name) pos
  | .parens inner _ => return .member left (.dynamic inner) pos
  | _ => breach .memberNotAField

/-- An operand, over the readers of what it may contain. -/
def operandOf (expression : Nat → Reader Expr) (handle : Position → Reader Expr)
    (elements : Kind → Bool → Reader (List Expr × List (List Expr))) : Reader Expr := do
  match ← peek with
  | none => complain .missingExpression
  | some token =>
    let signed : Reader Expr :=
      match token.kind.unaryOperator? with
      | none => breach .unexpectedOperator
      | some operator => do
        let power ← byte UnaryOperator.operandPower
        advance
        return .unary operator (← expression power) token.pos
    match token.kind with
    | .ident =>
      advance
      return .ident (← used token)
    | .number =>
      advance
      return .number token.text token.pos
    | .string =>
      advance
      return .string (← unquote token.text) token.pos
    | .endKeyword =>
      if token.text = "end" ∧ (← nesting) ≠ .outside then
        advance
        return .lastIndex token.pos
      else complain .endOutsideSubscript
    | .colon =>
      if ← colonStandsAlone then
        advance
        return .colon token.pos
      else complain .colonOutsideSubscript
    | .tilde =>
      if ← tildeStandsAlone then
        advance
        return .ident ⟨"~", token.pos⟩
      else signed
    | .minus => signed
    | .plus => signed
    | .atSign =>
      advance
      handle token.pos
    | .leftParen =>
      advance
      let inner ← nested .group (expression 0)
      discard (expect .rightParen)
      return .parens inner token.pos
    | .leftBracket =>
      advance
      let (row, rows) ← nested .literal (elements .rightBracket false)
      return .matrix (Parser.rowsOf row rows) token.pos
    | .leftBrace =>
      advance
      let (row, rows) ← nested .literal (elements .rightBrace false)
      return .cell (Parser.rowsOf row rows) token.pos
    | .error => breach .invalidCharacter
    | _ => complain .notAnExpression

mutual

/-- An expression whose operators have at least a power. -/
def expression (fuel : Nat) (power : Nat) : Reader Expr :=
  match fuel with
  | 0 => exhausted
  | fuel + 1 => do
    let left ← operand fuel
    operators fuel power left

/-- The operators after an operand, as long as they have at least a power. -/
def operators (fuel : Nat) (power : Nat) (left : Expr) : Reader Expr :=
  match fuel with
  | 0 => exhausted
  | fuel + 1 => do
    match ← peekKind with
    | none => return left
    | some kind =>
      if ← atNewElement then return left
      else match kind.postfixOperator? with
        | some operator =>
          if (← byte operator.leftPower) < power then return left
          else
            let whole ← postfixNode fuel left operator
            operators fuel power whole
        | none =>
          match kind.infixOperator? with
          | some operator =>
            let leftPower ← byte operator.leftPower
            let rightPower ← byte operator.rightPower
            if leftPower < power then return left
            else
              let pos ← placed .unplacedOperator
              advance
              let right ← expression fuel rightPower
              operators fuel power (.infixNode operator left right pos)
          | none => return left

/-- An operand. -/
def operand (fuel : Nat) : Reader Expr :=
  match fuel with
  | 0 => exhausted
  | fuel + 1 => operandOf (expression fuel) (handle fuel) (elements fuel)

/-- What follows the sign of a function handle. -/
def handle (fuel : Nat) (pos : Position) : Reader Expr :=
  match fuel with
  | 0 => exhausted
  | fuel + 1 => do
    match ← peekKind with
    | some .leftParen =>
      let params ← parameters fuel
      let power ← byte lambdaBodyPower
      return .lambda params (← expression fuel power) pos
    | some .ident => return .handle (Parser.declared (← expect .ident)) pos
    | _ => complain .missingHandle

/-- What is left of a literal: the elements of the current row and the rows after it. -/
def elements (fuel : Nat) (close : Kind) (afterElement : Bool) :
    Reader (List Expr × List (List Expr)) :=
  match fuel with
  | 0 => exhausted
  | fuel + 1 => do
    match ← peekKind with
    | none => complain (.unterminatedLiteral close)
    | some kind =>
      if kind = close then
        advance
        return ([], [])
      else if kind = .semicolon ∨ kind = .newline then
        advance
        let (row, rows) ← elements fuel close false
        return ([], Parser.rowsOf row rows)
      else if kind = .comma then
        if afterElement then
          advance
          elements fuel close false
        else complain .unexpectedComma
      else
        let element ← expression fuel 0
        let (row, rows) ← elements fuel close true
        return (element :: row, rows)

/-- A postfix operator, which is the next token, applied to the operand before it. -/
def postfixNode (fuel : Nat) (left : Expr) (operator : PostfixOperator) : Reader Expr :=
  match fuel with
  | 0 => exhausted
  | fuel + 1 =>
    match operator with
    | .call => do
      advance
      return left.apply (← nested .group (arguments fuel .rightParen))
    | .cellIndex => do
      advance
      return .cellIndex left (← nested .group (arguments fuel .rightBrace)) left.pos
    | .field => do
      match ← next with
      | none => breach .missingDot
      | some dot =>
        match ← peekKind with
        | some .ident =>
          match ← next with
          | some token => member left (.ident (Parser.declared token)) dot.pos
          | none => complain .missingField
        | some .leftParen =>
          let name ← operandOf (expression fuel) (handle fuel) (elements fuel)
          member left name dot.pos
        | _ => complain .missingField
    | .transpose => do
      let pos ← placed .unplacedMarks
      return .transpose left (← rounds (marksFrom "")) pos

/-- The arguments behind an opening bracket, and the closing one. -/
def arguments (fuel : Nat) (close : Kind) : Reader (List Expr) :=
  match fuel with
  | 0 => exhausted
  | fuel + 1 => do
    if ← consume close then return [] else argumentsFrom fuel close

/-- The arguments of a list that is not empty, and its closing bracket. -/
def argumentsFrom (fuel : Nat) (close : Kind) : Reader (List Expr) :=
  match fuel with
  | 0 => exhausted
  | fuel + 1 => do
    let first ← expression fuel 0
    if ← consume .comma then return first :: (← argumentsFrom fuel close)
    else
      discard (expect close)
      return [first]

end

end MatlabFront.Checked
