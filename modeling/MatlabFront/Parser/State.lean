import MatlabFront.Event
import MatlabFront.Failure
import MatlabFront.Tree

/-!
# State of a parse

A parser works on the tokens that are left. It keeps the tokens read, because a gap in front of the
next token can matter and an input that ends is reported at its last token; the function it is in,
because a `return` carries the outputs of that function; and the events so far. It either is done
with a value, or fails for good, or has exhausted the steps it was given. Nothing is tried twice, so
a failure is final, and the state in which it was met is where the parse stays.
-/

namespace MatlabFront

/-- The function that is being read. -/
structure Scope where
  /-- The outputs that the function declares. -/
  outputs : List Ident
  /-- The name `nargin` has been read in the body. -/
  usesNargin : Bool

/-- Where a parse stands. -/
structure State where
  /-- The tokens read, the latest first. -/
  consumed : List Token
  /-- The tokens left. -/
  rest : List Token
  scope : Option Scope
  /-- The events so far, the latest first. -/
  events : List Event

/-- The position of the next token, or the end of the last one when none is left. -/
def State.pos (state : State) : Position :=
  match state.rest, state.consumed with
  | next :: _, _ => next.pos
  | [], last :: _ => ⟨last.pos.line, last.stop⟩
  | [], [] => .origin

/-- What a parser comes to. -/
inductive Outcome (α : Type) where
  | done (value : α) (state : State)
  | failed (failure : Failure) (state : State)
  | exhausted

/-- A step of a parse. -/
def Parser (α : Type) : Type := State → Outcome α

namespace Parser

/-- A parser that reads nothing. -/
def succeed {α : Type} (value : α) : Parser α := fun state => .done value state

/-- One parser after another. -/
def andThen {α β : Type} (first : Parser α) (next : α → Parser β) : Parser β := fun state =>
  match first state with
  | .done value state => next value state
  | .failed failure state => .failed failure state
  | .exhausted => .exhausted

instance : Monad Parser where
  pure := succeed
  bind := andThen

/-- The parser that has no step left. -/
def exhausted {α : Type} : Parser α := fun _ => .exhausted

/-- The next token. -/
def peek : Parser (Option Token) := fun state => .done state.rest.head? state

/-- The kind of the next token. -/
def peekKind : Parser (Option Kind) := fun state => .done (state.rest.head?.map (·.kind)) state

/-- The kind of the token after the next one. -/
def secondKind : Parser (Option Kind) := fun state =>
  .done (state.rest.tail.head?.map (·.kind)) state

/-- The kind of the third token from here. -/
def thirdKind : Parser (Option Kind) := fun state =>
  .done (state.rest.tail.tail.head?.map (·.kind)) state

/-- Reads the next token, if there is one. -/
def advance : Parser Unit := fun state =>
  match state.rest with
  | [] => .done () state
  | next :: rest => .done () { state with consumed := next :: state.consumed, rest := rest }

/-- Fails with a complaint about the next token or the end of the input. -/
def complain {α : Type} (complaint : Complaint) : Parser α := fun state =>
  .failed (.syntaxFault complaint state.rest.head? state.pos) state

/-- Fails with a flaw at a position. -/
def reject {α : Type} (flaw : Flaw) (pos : Position) : Parser α := fun state =>
  .failed (.invalidTarget flaw pos) state

/-- Takes a result that may be a failure. -/
def ofExcept {α : Type} (result : Except Failure α) : Parser α := fun state =>
  match result with
  | .ok value => .done value state
  | .error failure => .failed failure state

/-- Reports an event. -/
def report (event : Event) : Parser Unit := fun state =>
  .done () { state with events := event :: state.events }

/-- Reads a token of a kind, or fails with a complaint. -/
def expectOr (complaint : Complaint) (kind : Kind) : Parser Token := do
  match ← peek with
  | some token =>
    if token.kind = kind then
      advance
      return token
    else complain complaint
  | none => complain complaint

/-- Reads a token of a kind, or complains that it is missing. -/
def expect (kind : Kind) : Parser Token := expectOr (.missing kind) kind

/-- Reads the next token if it is of a kind, and says whether it was. -/
def consume (kind : Kind) : Parser Bool := do
  if (← peekKind) = some kind then
    advance
    return true
  else return false

/-- Whether the next token separates statements. -/
def atSeparator : Parser Bool := do
  match ← peekKind with
  | some kind => return kind.isSeparator
  | none => return false

/-- Reads tokens while their kind satisfies a test. -/
def skipWhile (test : Kind → Bool) : Parser Unit := fun state =>
  .done () { state with
    consumed := (state.rest.takeWhile (test ·.kind)).reverse ++ state.consumed
    rest := state.rest.dropWhile (test ·.kind) }

/-- Reads all separators that come next. -/
def skipSeparators : Parser Unit := skipWhile Kind.isSeparator

/-- Complains unless a separator comes next. It is left unread. -/
def expectSeparator (clause : Clause) : Parser Unit := do
  if ← atSeparator then return () else complain (.missingSeparator clause)

/-- Complains unless the statement can end here. -/
def expectTerminator : Parser Unit := do
  match ← peekKind with
  | none => return ()
  | some kind =>
    if kind.isSeparator || kind.isBlockKeyword then return () else complain .missingTerminator

/-- The name that a token writes, without counting as a use. -/
def declared (token : Token) : Ident := ⟨token.text, token.pos⟩

/-- The name that a token uses; the enclosing function notes a use of `nargin`. -/
def used (token : Token) : Parser Ident := fun state =>
  .done (declared token)
    (if token.text = "nargin" then
      { state with scope := state.scope.map ({ · with usesNargin := true }) }
    else state)

/-- Reads a name that is used. -/
def expectUsed : Parser Ident := do used (← expect .ident)

/-- Reads a name that is declared. -/
def expectDeclared : Parser Ident := do return declared (← expect .ident)

end Parser

end MatlabFront
