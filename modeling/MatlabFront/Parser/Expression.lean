import MatlabFront.Parser.State
import MatlabFront.Token.Literal
import MatlabFront.Tree.Node

/-!
# Expressions

An expression is an operand followed by postfix and infix operators that bind tightly enough, each
infix operator with a right operand of its own. What surrounds an expression matters in four
places: `end` needs some bracket around it, a bare colon stands alone in a subscript, a `~` stands
alone in a literal as an output to ignore, and inside a literal a gap can begin a new element.

Every function here takes the number of steps it may still go down.
-/

namespace MatlabFront

/-- The innermost bracket around an expression. -/
inductive Nesting where
  | outside
  /-- Parentheses, or the list of a subscript. -/
  | group
  /-- A matrix or cell literal, in which gaps separate elements. -/
  | elements
  deriving DecidableEq

namespace Parser

/-- A colon here is a whole subscript: it stands directly in a group and the subscript ends after
it. -/
def colonStandsAlone (nesting : Nesting) : Parser Bool := do
  match nesting, ← secondKind with
  | .group, some .comma | .group, some .rightParen | .group, some .rightBrace => return true
  | _, _ => return false

/-- A tilde here is an output to ignore: it stands directly in a literal and the element ends after
it. -/
def tildeStandsAlone (nesting : Nesting) : Parser Bool := do
  match nesting, ← secondKind with
  | .elements, some .comma | .elements, some .rightBracket => return true
  | _, _ => return false

/-- Inside a literal, an opening parenthesis or brace after a gap begins a new element, and so does
a sign after a gap that has none behind it. -/
def gapBeginsElement (consumed rest : List Token) : Bool :=
  match consumed, rest with
  | last :: _, next :: later =>
    !last.adjacentTo next &&
      match next.kind with
      | .leftParen | .leftBrace => true
      | .plus | .minus =>
        match later with
        | [] => false
        | following :: _ => next.adjacentTo following
      | _ => false
  | _, _ => false

/-- Whether the next token begins a new element of the literal around it. -/
def atNewElement (nesting : Nesting) : Parser Bool := fun state =>
  .done (nesting == .elements && gapBeginsElement state.consumed state.rest) state

/-- The parameters behind the opening parenthesis of a list that is not empty. A tilde is a parameter
that the body ignores. -/
def parametersFrom (fuel : Nat) : Parser (List Param) :=
  match fuel with
  | 0 => exhausted
  | fuel + 1 => do
    let param ← do
      match ← peek with
      | some token =>
        if token.kind = .tilde then
          advance
          pure (Param.mk "~" token.pos)
        else pure (Param.ofIdent (← expectDeclared))
      | none => pure (Param.ofIdent (← expectDeclared))
    if ← consume .comma then return param :: (← parametersFrom fuel)
    else
      discard (expect .rightParen)
      return [param]

/-- A list of parameters in parentheses. -/
def parameters (fuel : Nat) : Parser (List Param) := do
  discard (expect .leftParen)
  if ← consume .rightParen then return [] else parametersFrom fuel

/-- Reads a run of transpose marks and returns their texts as one. -/
def transposeMarks : Parser String := fun state =>
  let isMark := fun (token : Token) => token.kind == .transpose || token.kind == .dotTranspose
  .done (String.join ((state.rest.takeWhile isMark).map (·.text)))
    { state with
      consumed := (state.rest.takeWhile isMark).reverse ++ state.consumed
      rest := state.rest.dropWhile isMark }

/-- The rows of a literal, given the elements left in its first row and the rows after it. Rows
without elements are dropped. -/
def rowsOf (row : List Expr) (rows : List (List Expr)) : List (List Expr) :=
  if row.isEmpty then rows else row :: rows

mutual

/-- An expression whose operators have at least a power. -/
def expression (fuel : Nat) (nesting : Nesting) (power : Nat) : Parser Expr :=
  match fuel with
  | 0 => exhausted
  | fuel + 1 => do
    let left ← operand fuel nesting
    operators fuel nesting power left

/-- The operators after an operand, as long as they have at least a power. -/
def operators (fuel : Nat) (nesting : Nesting) (power : Nat) (left : Expr) : Parser Expr :=
  match fuel with
  | 0 => exhausted
  | fuel + 1 => do
    match ← peek with
    | none => return left
    | some token =>
      if ← atNewElement nesting then return left
      else match token.kind.postfixOperator? with
        | some operator =>
          if operator.leftPower < power then return left
          else
            let whole ← postfixNode fuel left operator token.pos
            operators fuel nesting power whole
        | none =>
          match token.kind.infixOperator? with
          | some operator =>
            if operator.leftPower < power then return left
            else
              advance
              let right ← expression fuel nesting operator.rightPower
              operators fuel nesting power (.infixNode operator left right token.pos)
          | none => return left

/-- An operand: a name, a literal, an expression in brackets, a function handle, or a unary operator
with its operand. -/
def operand (fuel : Nat) (nesting : Nesting) : Parser Expr :=
  match fuel with
  | 0 => exhausted
  | fuel + 1 => do
    match ← peek with
    | none => complain .missingExpression
    | some token =>
      match token.kind with
      | .ident =>
        advance
        return .ident (← used token)
      | .number =>
        advance
        return .number token.text token.pos
      | .string =>
        advance
        return .string (Literal.unquote token.text) token.pos
      | .endKeyword =>
        if token.text = "end" ∧ nesting ≠ .outside then
          advance
          return .lastIndex token.pos
        else complain .endOutsideSubscript
      | .colon =>
        if ← colonStandsAlone nesting then
          advance
          return .colon token.pos
        else complain .colonOutsideSubscript
      | .tilde =>
        if ← tildeStandsAlone nesting then
          advance
          return .ident ⟨"~", token.pos⟩
        else
          advance
          return .unary .not (← expression fuel nesting UnaryOperator.operandPower) token.pos
      | .minus =>
        advance
        return .unary .minus (← expression fuel nesting UnaryOperator.operandPower) token.pos
      | .plus =>
        advance
        return .unary .plus (← expression fuel nesting UnaryOperator.operandPower) token.pos
      | .atSign =>
        advance
        handle fuel nesting token.pos
      | .leftParen =>
        advance
        let inner ← expression fuel .group 0
        discard (expect .rightParen)
        return .parens inner token.pos
      | .leftBracket =>
        advance
        let (row, rows) ← elements fuel .rightBracket false
        return .matrix (rowsOf row rows) token.pos
      | .leftBrace =>
        advance
        let (row, rows) ← elements fuel .rightBrace false
        return .cell (rowsOf row rows) token.pos
      | .error => complain .invalidCharacter
      | _ => complain .notAnExpression

/-- What follows the sign of a function handle: the parameters and the body of an anonymous function,
or the name of a function. -/
def handle (fuel : Nat) (nesting : Nesting) (pos : Position) : Parser Expr :=
  match fuel with
  | 0 => exhausted
  | fuel + 1 => do
    match ← peek with
    | some token =>
      match token.kind with
      | .leftParen =>
        let params ← parameters fuel
        return .lambda params (← expression fuel nesting lambdaBodyPower) pos
      | .ident =>
        advance
        return .handle (declared token) pos
      | _ => complain .missingHandle
    | none => complain .missingHandle

/-- What is left of a literal: the elements of the current row and the rows after it. A comma is
allowed directly after an element. -/
def elements (fuel : Nat) (close : Kind) (afterElement : Bool) :
    Parser (List Expr × List (List Expr)) :=
  match fuel with
  | 0 => exhausted
  | fuel + 1 => do
    match ← peekKind with
    | none => complain (.unterminatedLiteral close)
    | some kind =>
      if kind = close then
        advance
        return ([], [])
      else if kind = .semicolon ∨ kind = .newline then
        advance
        let (row, rows) ← elements fuel close false
        return ([], rowsOf row rows)
      else if kind = .comma then
        if afterElement then
          advance
          elements fuel close false
        else complain .unexpectedComma
      else
        let element ← expression fuel .elements 0
        let (row, rows) ← elements fuel close true
        return (element :: row, rows)

/-- A postfix operator, which is the next token, applied to the operand before it. -/
def postfixNode (fuel : Nat) (left : Expr) (operator : PostfixOperator) (pos : Position) :
    Parser Expr :=
  match fuel with
  | 0 => exhausted
  | fuel + 1 => do
    match operator with
    | .call =>
      advance
      return left.apply (← arguments fuel .rightParen)
    | .cellIndex =>
      advance
      return .cellIndex left (← arguments fuel .rightBrace) left.pos
    | .field =>
      advance
      match ← peek with
      | some token =>
        match token.kind with
        | .ident =>
          advance
          return .member left (.named (declared token)) pos
        | .leftParen =>
          advance
          let name ← expression fuel .group 0
          discard (expect .rightParen)
          return .member left (.dynamic name) pos
        | _ => complain .missingField
      | none => complain .missingField
    | .transpose => return .transpose left (← transposeMarks) pos

/-- The arguments behind an opening bracket, and the closing one. -/
def arguments (fuel : Nat) (close : Kind) : Parser (List Expr) :=
  match fuel with
  | 0 => exhausted
  | fuel + 1 => do
    if ← consume close then return [] else argumentsFrom fuel close

/-- The arguments of a list that is not empty, and its closing bracket. -/
def argumentsFrom (fuel : Nat) (close : Kind) : Parser (List Expr) :=
  match fuel with
  | 0 => exhausted
  | fuel + 1 => do
    let first ← expression fuel .group 0
    if ← consume .comma then return first :: (← argumentsFrom fuel close)
    else
      discard (expect close)
      return [first]

end

/-- An expression outside all brackets. -/
def wholeExpression (fuel : Nat) : Parser Expr := expression fuel .outside 0

end Parser

end MatlabFront
