import MatlabFront.Token.Lexeme

/-!
# Tokens of a text

A text is read lexeme by lexeme. What a lexeme means can depend on what was read before it, and
the context keeps just that: where the text has been read to, which brackets are open, the last
token and whether that token began its statement. An apostrophe is a transpose directly after a
value. After a gap it opens a string inside a matrix or cell literal and after the first word of a
statement, where it may be an argument of a command; elsewhere it still transposes. A newline
inside parentheses makes no token.
-/

namespace MatlabFront

/-- What is known in front of the next lexeme. -/
structure Context where
  /-- Where the next lexeme starts. -/
  pos : Position
  /-- The open brackets, innermost first. -/
  brackets : List Kind
  /-- The last token read. -/
  last : Option Token
  /-- The last token is the first of its statement. -/
  lastStarts : Bool

namespace Context

/-- The context at the start of a text. -/
def start : Context := ⟨⟨1, 0⟩, [], none, false⟩

/-- The position behind a text that starts at a position. -/
def advance (pos : Position) (text : List Char) : Position :=
  ⟨pos.line + text.count '\n', pos.offset + (String.ofList text).utf8ByteSize⟩

/-- Whether an apostrophe transposes the value before it. -/
def transposes (context : Context) : Bool :=
  match context.last with
  | none => false
  | some last =>
    last.kind.endsValue &&
      (last.stop == context.pos.offset ||
        match context.brackets with
        | [] => !(last.kind == .ident && context.lastStarts)
        | bracket :: _ => !(bracket == .leftBracket || bracket == .leftBrace))

/-- The lexeme at the front of a text in a context: apostrophes are settled, and newlines inside
parentheses make no token. -/
def lexeme (context : Context) (c : Char) (cs : List Char) : Lexeme :=
  let plain := Lexeme.read c cs
  match plain.kind with
  | some .quote =>
    if context.transposes then ⟨some .transpose, 0⟩
    else
      let reach := Literal.closingRun '\'' cs
      ⟨some (if reach.closed then .string else .error), reach.length⟩
  | some .newline => if context.brackets.head? = some .leftParen then ⟨none, 0⟩ else plain
  | _ => plain

/-- The open brackets after a token: an opener adds itself, and any closer removes the innermost
one. -/
def bracketsAfter (brackets : List Kind) (kind : Kind) : List Kind :=
  if kind.opensBracket then kind :: brackets
  else if kind.closesBracket then brackets.tail
  else brackets

/-- Whether a token after the last one begins a statement. -/
def atStatementStart (context : Context) : Bool :=
  match context.last with
  | none => true
  | some last => last.kind.isSeparator

/-- The context behind a piece of text that makes no token. -/
def skip (context : Context) (text : List Char) : Context :=
  { context with pos := advance context.pos text }

/-- The token that a piece of text makes in a context. -/
def token (context : Context) (kind : Kind) (text : List Char) : Token :=
  ⟨kind, String.ofList text, context.pos⟩

/-- The context behind a piece of text that makes a token. -/
def push (context : Context) (kind : Kind) (text : List Char) : Context where
  pos := advance context.pos text
  brackets := bracketsAfter context.brackets kind
  last := some (context.token kind text)
  lastStarts := context.atStatementStart

/-- The tokens of a text in a context. -/
def tokens (context : Context) : List Char → List Token
  | [] => []
  | c :: cs =>
    let lexeme := context.lexeme c cs
    let text := c :: cs.take lexeme.extra
    match lexeme.kind with
    | none => (context.skip text).tokens (cs.drop lexeme.extra)
    | some kind =>
      context.token kind text :: (context.push kind text).tokens (cs.drop lexeme.extra)
termination_by cs => cs.length
decreasing_by all_goals (simp only [List.length_drop, List.length_cons]; omega)

end Context

/-- The tokens of a text, in order. -/
def Token.ofText (text : String) : List Token := Context.start.tokens text.toList

end MatlabFront
