import MatlabFront.Parser.Statement
import MatlabFront.Token.OfText

/-!
# Programs

A program is a list of statements and functions. A function ends at its `end`, at the next function
or with the input, and its body always ends with a return of its outputs. A token that is an error
is reported before anything is parsed.
-/

namespace MatlabFront

/-- The function of a head and a body. It notes whether the body used `nargin`, and a body that does
not end with a return gets one. -/
def Function.close (head : Header) (body : List Stmt) (scope : Scope) : Function :=
  let closed :=
    match body.getLast? with
    | some (.leave _ _) => body
    | _ => body ++ [.leave scope.outputs head.pos]
  .mk { head with usesNargin := scope.usesNargin } closed

namespace Parser

/-- The outputs in brackets of a function, behind the opening one. Commas between them are free. -/
def bracketedOutputs (fuel : Nat) : Parser (List Ident) :=
  match fuel with
  | 0 => exhausted
  | fuel + 1 => do
    if ← consume .rightBracket then return []
    else if ← consume .comma then bracketedOutputs fuel
    else
      let name ← expectDeclared
      return name :: (← bracketedOutputs fuel)

/-- The outputs that a function declares, and the equals sign behind them. -/
def functionOutputs (fuel : Nat) : Parser (List Ident) := do
  if ← consume .leftBracket then
    let outputs ← bracketedOutputs fuel
    discard (expect .assign)
    return outputs
  else if (← peekKind) = some .ident ∧ (← secondKind) = some .assign then
    let output ← expectDeclared
    advance
    return [output]
  else return []

/-- The head of a function, behind its keyword. -/
def functionHead (fuel : Nat) (pos : Position) : Parser Header := do
  let outputs ← functionOutputs fuel
  let name ← expectDeclared
  let params ← if (← peekKind) = some .leftParen then parameters fuel else pure []
  return ⟨name, params, outputs, false, pos⟩

/-- Enters a function with some outputs. -/
def enterScope (outputs : List Ident) : Parser Unit := fun state =>
  .done () { state with scope := some ⟨outputs, false⟩ }

/-- Leaves the function that was entered and returns what was noted about it. -/
def leaveScope (outputs : List Ident) : Parser Scope := fun state =>
  .done (state.scope.getD ⟨outputs, false⟩) { state with scope := none }

/-- The kinds that end the body of a function. -/
def endsFunction : Kind → Bool
  | .endKeyword | .functionKeyword => true
  | _ => false

/-- A function, behind its keyword. -/
def function (fuel : Nat) (dialect : Dialect) (pos : Position) : Parser Function := do
  let head ← functionHead fuel pos
  report (.functionOpened head.name.name)
  enterScope head.outputs
  let body ← block fuel dialect endsFunction
  let scope ← leaveScope head.outputs
  discard (consume .endKeyword)
  let whole := Function.close head body scope
  report (.functionClosed head.name.name whole.body.length whole.head.usesNargin)
  return whole

/-- The statements and functions of a program, to the end of the input. -/
def topLevel (fuel : Nat) (dialect : Dialect) : Parser (List Stmt) :=
  match fuel with
  | 0 => exhausted
  | fuel + 1 => do
    skipSeparators
    match ← peek with
    | none => return []
    | some token =>
      if token.kind = .functionKeyword then
        advance
        let first ← function fuel dialect token.pos
        return .function first :: (← topLevel fuel dialect)
      else if token.kind.isBlockKeyword then complain .strayBlockKeyword
      else
        let first ← statement fuel dialect
        return first ++ (← topLevel fuel dialect)

/-- A number of steps for some tokens. Eight for each token is more than the grammar takes between one
token and the next. -/
def steps (tokens : List Token) : Nat := 8 * (tokens.length + 1)

/-- A program of some dialect. -/
def program (dialect : Dialect) : Parser Program := fun state =>
  (do return ⟨← topLevel (steps state.rest) dialect⟩ : Parser Program) state

end Parser

/-- The state in front of some tokens. -/
def State.start (tokens : List Token) : State := ⟨[], tokens, none, []⟩

/-- What reading a program comes to: the result, and the events in order. -/
structure Reading where
  /-- The program or the first failure; absent only if the parser ran out of steps. -/
  result : Option (Except Failure Program)
  events : List Event

namespace Reading

/-- The reading of a parse that was started on some tokens. -/
def ofOutcome : Outcome Program → Reading
  | .done program state =>
    ⟨some (.ok program), (.finished program.body.length :: state.events).reverse⟩
  | .failed failure state => ⟨some (.error failure), state.events.reverse⟩
  | .exhausted => ⟨none, []⟩

/-- Reads tokens as a program of a dialect. The first error among them is reported before anything
is parsed. -/
def ofTokens (dialect : Dialect) (tokens : List Token) : Reading :=
  match tokens.find? (·.kind == .error) with
  | some bad => ⟨some (.error (.syntaxFault (.invalidToken bad.text) (some bad) bad.pos)), []⟩
  | none =>
    let reading := ofOutcome (Parser.program dialect (.start tokens))
    { reading with events := .started tokens.length dialect :: reading.events }

/-- Reads a text as a program of a dialect. -/
def ofText (dialect : Dialect) (text : String) : Reading :=
  let tokens := Token.ofText text
  let reading := ofTokens dialect tokens
  { reading with events := tokens.filterMap Token.event? ++ reading.events }

end Reading

/-- The program that some tokens are in a dialect. -/
def Program.ofTokens (dialect : Dialect) (tokens : List Token) :
    Option (Except Failure Program) := (Reading.ofTokens dialect tokens).result

end MatlabFront
