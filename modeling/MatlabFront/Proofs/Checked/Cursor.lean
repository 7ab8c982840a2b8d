import MatlabFront.Parser.Expression

/-!
# Parsing in machine words

The parser reads a vector of tokens with an index, and counts in machine words. An index or a count
can grow too large for its word, a text can be cut inside a character, a stack can be empty where an
entry is expected, and a match can have a case that is meant never to arise. The parser proper does
without all these. Here it is written once more with them, so that each one is a breach that a run
could come to: the steps with which tokens are read, and the checks in them.
-/

namespace MatlabFront

namespace Checked

/-- What a parse is meant never to come to. -/
inductive Breach where
  /-- A number does not fit in its machine word. -/
  | overflow
  /-- A number would be negative. -/
  | underflow
  /-- A text is cut inside a character. -/
  | splitCharacter
  | scopeClosedTwice
  | unexpectedOperator
  | missingDot
  | invalidCharacter
  | memberNotAField
  | missingCommandName
  /-- An infix operator gets the position that stands for no token. -/
  | unplacedOperator
  /-- A run of transpose marks gets the position that stands for no token. -/
  | unplacedMarks
  deriving DecidableEq

/-- The text with which a breach is reported, if it is not a panic or passed over in silence. -/
def Breach.message? : Breach → Option String
  | scopeClosedTwice => some "function scope was closed twice"
  | unexpectedOperator => some "unexpected operator"
  | missingDot => some "expected '.'"
  | invalidCharacter => some "invalid character"
  | memberNotAField => some "field access requires a name or a parenthesized expression"
  | missingCommandName => some "expected command name"
  | overflow | underflow | splitCharacter | unplacedOperator | unplacedMarks => none

/-- A bracket that is open. -/
inductive Bracket where
  | literal
  | group
  deriving DecidableEq

/-- What it means for an expression to stand directly in a bracket. -/
def Bracket.nesting : Bracket → Nesting
  | literal => .elements
  | group => .group

/-- The innermost of some open brackets. -/
def innermost : List Bracket → Nesting
  | [] => .outside
  | bracket :: _ => bracket.nesting

/-- A function that is being read. -/
structure FunctionScope where
  outputs : List Ident
  /-- How often its body has used `nargin` so far. -/
  uses : Nat

/-- What is noted about a function in the end. -/
def FunctionScope.noted (scope : FunctionScope) : Scope :=
  ⟨scope.outputs, decide (0 < scope.uses)⟩

/-- Where a parse stands. -/
structure Cursor where
  /-- The first number that does not fit in a machine word. -/
  limit : Nat
  tokens : List Token
  /-- The index of the next token. -/
  index : Nat
  /-- The open brackets, the innermost first. -/
  brackets : List Bracket
  /-- The open functions, the innermost first. -/
  scopes : List FunctionScope
  /-- The events so far, the latest first. -/
  events : List Event

/-- What a reader comes to. -/
inductive Verdict (α : Type) where
  | done (value : α) (cursor : Cursor)
  | failed (failure : Failure) (cursor : Cursor)
  | breached (breach : Breach)
  | exhausted

/-- A step of a parse in machine words. -/
def Reader (α : Type) : Type := Cursor → Verdict α

/-- What a reader comes to after one that came to a verdict. -/
def Verdict.bind {α β : Type} (verdict : Verdict α) (next : α → Reader β) : Verdict β :=
  match verdict with
  | .done value cursor => next value cursor
  | .failed failure cursor => .failed failure cursor
  | .breached breach => .breached breach
  | .exhausted => .exhausted

namespace Reader

variable {α β : Type}

/-- A reader that reads nothing. -/
def succeed (value : α) : Reader α := fun cursor => .done value cursor

/-- One reader after another. -/
def andThen (first : Reader α) (next : α → Reader β) : Reader β := fun cursor =>
  (first cursor).bind next

instance : Monad Reader where
  pure := succeed
  bind := andThen

end Reader

variable {α : Type}

/-- The reader that comes to a breach. -/
def breach (breach : Breach) : Reader α := fun _ => .breached breach

/-- The reader that has no step left. -/
def exhausted : Reader α := fun _ => .exhausted

/-- A field of the cursor. -/
def look (field : Cursor → α) : Reader α := fun cursor => .done (field cursor) cursor

/-- A change of the cursor. -/
def change (move : Cursor → Cursor) : Reader Unit := fun cursor => .done () (move cursor)

/-- The reader that fails for good. -/
def fail (failure : Failure) : Reader α := fun cursor => .failed failure cursor

/-- Takes a result that may be a failure. -/
def ofExcept : Except Failure α → Reader α
  | .ok value => pure value
  | .error failure => fail failure

/-- Reports an event. -/
def report (event : Event) : Reader Unit :=
  change fun cursor => { cursor with events := event :: cursor.events }

section Numbers

/-- A number that has to fit in a machine word. -/
def machineWord (value : Nat) : Reader Nat := do
  if value < (← look Cursor.limit) then return value else breach .overflow

/-- What a number is greater by than one that must not exceed it. -/
def minus (value less : Nat) : Reader Nat :=
  if less ≤ value then pure (value - less) else breach .underflow

/-- A number that has to fit in a byte, as a binding power has. -/
def byte (value : Nat) : Reader Nat := if value < 256 then pure value else breach .overflow

/-- The byte offset at which the text of a token stops. -/
def stop (token : Token) : Reader Nat := machineWord (token.pos.offset + token.text.utf8ByteSize)

/-- The second token starts exactly where the first stops. -/
def adjacent (token next : Token) : Reader Bool := do return (← stop token) == next.pos.offset

end Numbers

section Tokens

/-- The token some places behind the next one. -/
def peekAt (ahead : Nat) : Reader (Option Token) := do
  let index ← machineWord ((← look Cursor.index) + ahead)
  look (·.tokens[index]?)

/-- The kind of the token some places behind the next one. -/
def kindAt (ahead : Nat) : Reader (Option Kind) := do return (← peekAt ahead).map (·.kind)

/-- The next token. -/
def peek : Reader (Option Token) := look fun cursor => cursor.tokens[cursor.index]?

/-- The kind of the next token. -/
def peekKind : Reader (Option Kind) := do return (← peek).map (·.kind)

/-- The token that was read last. -/
def previous : Reader (Option Token) := do
  match ← look Cursor.index with
  | 0 => return none
  | index + 1 => look (·.tokens[index]?)

/-- Moves behind one token, whether there is one or not. -/
def step : Reader Unit := do
  let index ← machineWord ((← look Cursor.index) + 1)
  change ({ · with index })

/-- Reads the next token, if there is one. -/
def next : Reader (Option Token) := do
  let found ← peek
  if found.isSome then step
  return found

/-- Reads the next token, if there is one, and drops it. -/
def advance : Reader Unit := discard next

/-- Reads the next token if it is of a kind, and says whether it was. -/
def consume (kind : Kind) : Reader Bool := do
  if (← peekKind) = some kind then
    step
    return true
  else return false

/-- Goes through the tokens in rounds, at most as many as there are tokens and one more. -/
def rounds (body : Nat → Reader α) : Reader α := fun cursor =>
  body (cursor.tokens.length + 1) cursor

/-- Reads tokens while their kind satisfies a test. -/
def skipWhileFrom (test : Kind → Bool) (fuel : Nat) : Reader Unit :=
  match fuel with
  | 0 => exhausted
  | fuel + 1 => do
    if (← peekKind).any test then
      step
      skipWhileFrom test fuel

/-- Reads tokens while their kind satisfies a test. -/
def skipWhile (test : Kind → Bool) : Reader Unit := rounds (skipWhileFrom test)

end Tokens

section Complaints

/-- The end of the last token, which is where an input that ends is reported. -/
def endPosition : Reader Position := do
  match ← look (·.tokens.getLast?) with
  | some token => return ⟨token.pos.line, ← stop token⟩
  | none => return .origin

/-- Fails with a complaint about the next token or the end of the input. -/
def complain (complaint : Complaint) : Reader α := do
  match ← peek with
  | some token => fail (.syntaxFault complaint (some token) token.pos)
  | none => fail (.syntaxFault complaint none (← endPosition))

/-- Fails with a flaw at a position. -/
def reject (flaw : Flaw) (pos : Position) : Reader α := fail (.invalidTarget flaw pos)

/-- Reads a token of a kind, or fails with a complaint. -/
def expectOr (complaint : Complaint) (kind : Kind) : Reader Token := do
  match ← peek with
  | some token =>
    if token.kind = kind then
      step
      return token
    else complain complaint
  | none => complain complaint

/-- Reads a token of a kind, or complains that it is missing. -/
def expect (kind : Kind) : Reader Token := expectOr (.missing kind) kind

/-- The position of the next token, where there is one. -/
def placed (missing : Breach) : Reader Position := do
  match ← peek with
  | some token => return token.pos
  | none => breach missing

/-- Reads all separators that come next. -/
def skipSeparators : Reader Unit := skipWhile Kind.isSeparator

/-- Whether the next token separates statements. -/
def atSeparator : Reader Bool := do return (← peekKind).any Kind.isSeparator

/-- Complains unless a separator comes next. It is left unread. -/
def expectSeparator (clause : Clause) : Reader Unit := do
  if ← atSeparator then return () else complain (.missingSeparator clause)

/-- Complains unless the statement can end here. -/
def expectTerminator : Reader Unit := do
  match ← peekKind with
  | none => return ()
  | some kind =>
    if kind.isSeparator || kind.isBlockKeyword then return () else complain .missingTerminator

/-- Reads the `end` of a block. -/
def expectEnd (block : Block) : Reader Unit := discard (expectOr (.missingEnd block) .endKeyword)

end Complaints

section Names

/-- Counts a use of `nargin` in the innermost function. -/
def countUse : Reader Unit := do
  match ← look Cursor.scopes with
  | [] => return ()
  | scope :: scopes =>
    let uses ← machineWord (scope.uses + 1)
    change ({ · with scopes := { scope with uses } :: scopes })

/-- The name that a token uses. -/
def used (token : Token) : Reader Ident := do
  if token.text = "nargin" then countUse
  return Parser.declared token

/-- Reads a name that is used. -/
def expectUsed : Reader Ident := do used (← expect .ident)

/-- Reads a name that is declared. -/
def expectDeclared : Reader Ident := do return Parser.declared (← expect .ident)

end Names

section Stacks

/-- Reads inside a bracket, which is closed again whatever comes of it. -/
def nested (bracket : Bracket) (inside : Reader α) : Reader α := fun cursor =>
  match inside { cursor with brackets := bracket :: cursor.brackets } with
  | .done value last => .done value { last with brackets := last.brackets.tail }
  | .failed failure last => .failed failure { last with brackets := last.brackets.tail }
  | .breached breach => .breached breach
  | .exhausted => .exhausted

/-- Reads the body of a function, which is left again whatever comes of it, and returns what was
noted about it. A body that left its function itself leaves nothing to return. -/
def inFunction (outputs : List Ident) (body : Reader α) : Reader (α × FunctionScope) :=
    fun cursor =>
  match body { cursor with scopes := ⟨outputs, 0⟩ :: cursor.scopes } with
  | .done value last =>
    match last.scopes with
    | scope :: scopes => .done (value, scope) { last with scopes }
    | [] => .breached .scopeClosedTwice
  | .failed failure last => .failed failure { last with scopes := last.scopes.tail }
  | .breached breach => .breached breach
  | .exhausted => .exhausted

end Stacks

section Texts

/-- A text behind some bytes, if these are whole characters. -/
def behindBytes : Nat → List Char → Option (List Char)
  | 0, cs => some cs
  | _ + 1, [] => none
  | bytes + 1, c :: cs =>
    if c.utf8Size ≤ bytes + 1 then behindBytes (bytes + 1 - c.utf8Size) cs else none

/-- The value of a literal. The text behind the opening delimiter is cut out before it is known
whether the literal is closed. -/
def unquote (text : String) : Reader String := do
  match text.toList with
  | [] => return ""
  | quote :: body =>
    match behindBytes quote.utf8Size (quote :: body) with
    | none => breach .splitCharacter
    | some behind =>
      let inner := if body.getLast? = some quote then body.dropLast else behind
      return String.ofList (Literal.collapse quote inner)

end Texts

end Checked

end MatlabFront
