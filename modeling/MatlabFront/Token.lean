import MatlabFront.Position

/-!
# Tokens

A token is a kind, the text it was read from and the position of that text. Two tokens are
adjacent when the second starts at the byte where the first stops; the grammar asks for this
wherever a gap carries meaning, inside matrix literals and in command words.
-/

namespace MatlabFront

/-- What a token is, apart from its text. -/
inductive Kind where
  | functionKeyword
  | ifKeyword
  | elseIfKeyword
  | elseKeyword
  | forKeyword
  | whileKeyword
  | switchKeyword
  | caseKeyword
  | otherwiseKeyword
  | tryKeyword
  | catchKeyword
  | breakKeyword
  | continueKeyword
  | returnKeyword
  | globalKeyword
  | endKeyword
  | ident
  | number
  | string
  | quote
  | transpose
  | dotTranspose
  | dotStar
  | dotSlash
  | dotBackslash
  | dotCaret
  | andAnd
  | orOr
  | equal
  | notEqual
  | lessEqual
  | greaterEqual
  | plus
  | minus
  | star
  | slash
  | backslash
  | caret
  | and
  | or
  | tilde
  | less
  | greater
  | assign
  | dot
  | atSign
  | semicolon
  | comma
  | newline
  | colon
  | leftParen
  | rightParen
  | leftBracket
  | rightBracket
  | leftBrace
  | rightBrace
  | error
  deriving DecidableEq

namespace Kind

/-- The name under which token listings and records show a kind. -/
def name : Kind → String
  | functionKeyword => "Function"
  | ifKeyword => "If"
  | elseIfKeyword => "ElseIf"
  | elseKeyword => "Else"
  | forKeyword => "For"
  | whileKeyword => "While"
  | switchKeyword => "Switch"
  | caseKeyword => "Case"
  | otherwiseKeyword => "Otherwise"
  | tryKeyword => "Try"
  | catchKeyword => "Catch"
  | breakKeyword => "Break"
  | continueKeyword => "Continue"
  | returnKeyword => "Return"
  | globalKeyword => "Global"
  | endKeyword => "End"
  | ident => "Ident"
  | number => "Number"
  | string => "Str"
  | quote => "Quote"
  | transpose => "Transpose"
  | dotTranspose => "DotTranspose"
  | dotStar => "DotStar"
  | dotSlash => "DotSlash"
  | dotBackslash => "DotBackslash"
  | dotCaret => "DotCaret"
  | andAnd => "AndAnd"
  | orOr => "OrOr"
  | equal => "Equal"
  | notEqual => "NotEqual"
  | lessEqual => "LessEqual"
  | greaterEqual => "GreaterEqual"
  | plus => "Plus"
  | minus => "Minus"
  | star => "Star"
  | slash => "Slash"
  | backslash => "Backslash"
  | caret => "Caret"
  | and => "And"
  | or => "Or"
  | tilde => "Tilde"
  | less => "Less"
  | greater => "Greater"
  | assign => "Assign"
  | dot => "Dot"
  | atSign => "At"
  | semicolon => "Semicolon"
  | comma => "Comma"
  | newline => "Newline"
  | colon => "Colon"
  | leftParen => "LParen"
  | rightParen => "RParen"
  | leftBracket => "LBracket"
  | rightBracket => "RBracket"
  | leftBrace => "LBrace"
  | rightBrace => "RBrace"
  | error => "Error"

/-- Every kind, once. -/
def all : List Kind :=
  [functionKeyword, ifKeyword, elseIfKeyword, elseKeyword, forKeyword, whileKeyword, switchKeyword,
    caseKeyword, otherwiseKeyword, tryKeyword, catchKeyword, breakKeyword, continueKeyword,
    returnKeyword, globalKeyword, endKeyword, ident, number, string, quote, transpose,
    dotTranspose, dotStar, dotSlash, dotBackslash, dotCaret, andAnd, orOr, equal, notEqual,
    lessEqual, greaterEqual, plus, minus, star, slash, backslash, caret, and, or, tilde, less,
    greater, assign, dot, atSign, semicolon, comma, newline, colon, leftParen, rightParen,
    leftBracket, rightBracket, leftBrace, rightBrace, error]

/-- The kind shown under a name. -/
def ofName? (name : String) : Option Kind := all.find? (·.name == name)

/-- The kinds that complete a value. An apostrophe directly after one of them transposes that
value; after any other token it opens a string. -/
def endsValue : Kind → Bool
  | ident | number | string | rightParen | rightBracket | rightBrace | transpose
  | dotTranspose => true
  | _ => false

/-- The kinds that separate statements. -/
def isSeparator : Kind → Bool
  | semicolon | comma | newline => true
  | _ => false

/-- The keywords that end or continue a block, and the one that opens the next function. -/
def isBlockKeyword : Kind → Bool
  | endKeyword | elseKeyword | elseIfKeyword | caseKeyword | otherwiseKeyword | catchKeyword
  | functionKeyword => true
  | _ => false

/-- The kinds with which a statement can begin. -/
def startsStatement : Kind → Bool
  | ident | number | string | leftParen | leftBracket | leftBrace | atSign | minus | plus | tilde
  | ifKeyword | forKeyword | whileKeyword | switchKeyword | tryKeyword | breakKeyword
  | continueKeyword | returnKeyword | globalKeyword => true
  | _ => false

/-- The kinds with which a word of a command can begin. -/
def startsWord : Kind → Bool
  | ident | number | string | globalKeyword => true
  | _ => false

/-- The kinds that open a bracket. -/
def opensBracket : Kind → Bool
  | leftParen | leftBracket | leftBrace => true
  | _ => false

/-- The kinds that close a bracket. -/
def closesBracket : Kind → Bool
  | rightParen | rightBracket | rightBrace => true
  | _ => false

/-- The name of a kind determines the kind. -/
theorem ofName?_name (kind : Kind) : ofName? kind.name = some kind := by
  cases kind <;> decide +kernel

end Kind

/-- A kind, the text it was read from, and where that text starts. -/
structure Token where
  kind : Kind
  text : String
  pos : Position
  deriving DecidableEq

namespace Token

/-- The byte offset at which the text of a token stops. -/
def stop (token : Token) : Nat := token.pos.offset + token.text.utf8ByteSize

/-- The second token starts exactly where the first stops. -/
def adjacentTo (token next : Token) : Bool := token.stop == next.pos.offset

end Token

end MatlabFront
