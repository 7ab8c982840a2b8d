import MatlabFront.Token

/-!
# Failures of parsing

A token list that is no program is refused for one reason, found at one place. A complaint is the
reason why the tokens do not go on, a flaw the reason why a tree is no assignment. The wording of
each is in one function here. A report is the reason as it is shown: its message, the token found
there, if any is left, and what was expected in its place.
-/

namespace MatlabFront

/-- The blocks that an `end` closes. -/
inductive Block where
  | ifBlock
  | whileBlock
  | forBlock
  | switchBlock
  | tryBlock
  deriving DecidableEq

/-- The keyword that opens a block, in quotes. -/
def Block.phrase : Block → String
  | ifBlock => "'if'"
  | whileBlock => "'while'"
  | forBlock => "'for'"
  | switchBlock => "'switch'"
  | tryBlock => "'try'"

/-- The clauses that a separator must follow. -/
inductive Clause where
  | ifCondition
  | elseIfCondition
  | whileCondition
  | forHeader
  | switchSubject
  | caseValue
  deriving DecidableEq

/-- The name of a clause. -/
def Clause.phrase : Clause → String
  | ifCondition => "if condition"
  | elseIfCondition => "elseif condition"
  | whileCondition => "while condition"
  | forHeader => "for header"
  | switchSubject => "switch subject"
  | caseValue => "case value"

/-- The name of a kind in a complaint that it is missing. -/
def Kind.phrase : Kind → String
  | .ident => "identifier"
  | .leftParen => "'('"
  | .rightParen => "')'"
  | .rightBracket => "']'"
  | .rightBrace => "'\x7d'"
  | .assign => "'='"
  | kind => kind.name

/-- Why the tokens do not continue a program. -/
inductive Complaint where
  /-- The text of a token that is an error in itself. -/
  | invalidToken (text : String)
  | missing (kind : Kind)
  | missingEnd (block : Block)
  | missingSeparator (clause : Clause)
  | missingTerminator
  | strayBlockKeyword
  | misplacedBlockKeyword
  | nestedFunction
  | missingExpression
  | notAnExpression
  | endOutsideSubscript
  | colonOutsideSubscript
  | invalidCharacter
  | missingHandle
  | unterminatedLiteral (close : Kind)
  | unexpectedComma
  | missingField
  deriving DecidableEq

namespace Complaint

/-- How separators are named where one is expected. -/
def separatorPhrase : String := "',', ';' or newline"

/-- The wording of a complaint. -/
def message : Complaint → String
  | invalidToken text => "Invalid token: '" ++ text ++ "'"
  | missing kind => "expected " ++ kind.phrase
  | missingEnd block => "expected 'end' to close " ++ block.phrase
  | missingSeparator clause => "expected separator after " ++ clause.phrase
  | missingTerminator => "expected end of statement"
  | strayBlockKeyword => "block keyword without a matching opening statement"
  | misplacedBlockKeyword => "unexpected block keyword"
  | nestedFunction => "function definitions are only allowed at top level"
  | missingExpression => "unexpected end of input"
  | notAnExpression => "unexpected token in expression"
  | endOutsideSubscript => "'end' is only valid inside a subscript"
  | colonOutsideSubscript => "bare ':' is only valid as a subscript"
  | invalidCharacter => "invalid character"
  | missingHandle => "expected function name or parameter list after '@'"
  | unterminatedLiteral _ => "unterminated literal"
  | unexpectedComma => "unexpected ','"
  | missingField => "expected field name after '.'"

/-- What a complaint says could have stood there. -/
def expected : Complaint → Option String
  | missing kind => some kind.phrase
  | missingEnd _ => some "'end'"
  | missingSeparator _ | missingTerminator => some separatorPhrase
  | missingExpression | notAnExpression => some "expression"
  | missingHandle | missingField => some "identifier or '('"
  | unterminatedLiteral close => some close.phrase
  | unexpectedComma => some "element"
  | _ => none

end Complaint

/-- Why a tree cannot be assigned to, or not as it stands. -/
inductive Flaw where
  | notAssignable
  | targetsNotARow
  | valueNotACall
  /-- The text of a command word that cannot receive a loaded variable. -/
  | wordNotAVariable (text : String)
  deriving DecidableEq

/-- The wording of a flaw. -/
def Flaw.message : Flaw → String
  | notAssignable => "expression is not assignable"
  | targetsNotARow => "multiple assignment targets must form a single non-empty row"
  | valueNotACall => "multiple assignment requires a function call on the right-hand side"
  | wordNotAVariable text => "'" ++ text ++ "' cannot receive a loaded variable"

/-- A complaint as it is shown. -/
structure SyntaxReport where
  message : String
  /-- The offending token; absent when the input ended. -/
  found : Option Token
  expected : Option String
  /-- Where the fault lies; at the end of the last token when the input ended. -/
  pos : Position
  deriving DecidableEq

/-- A report in one line. -/
def SyntaxReport.text (report : SyntaxReport) : String :=
  "Syntax error at line " ++ toString report.pos.line ++ ", offset " ++ toString report.pos.offset
    ++ ": " ++ report.message
    ++ (match report.found with
      | some token => " (found: '" ++ token.text ++ "')"
      | none => " (found: end of input)")
    ++ (match report.expected with
      | some expected => " (expected: " ++ expected ++ ")"
      | none => "")

/-- The first failure of a parse. -/
inductive Failure where
  | syntaxFault (complaint : Complaint) (found : Option Token) (pos : Position)
  | invalidTarget (flaw : Flaw) (pos : Position)
  deriving DecidableEq

namespace Failure

/-- The report of a complaint at a token or at the end of the input. -/
def report (complaint : Complaint) (found : Option Token) (pos : Position) : SyntaxReport :=
  ⟨complaint.message, found, complaint.expected, pos⟩

/-- Where a failure lies. -/
def pos : Failure → Position
  | syntaxFault _ _ pos | invalidTarget _ pos => pos

/-- A failure in one line. -/
def text : Failure → String
  | syntaxFault complaint found pos => (report complaint found pos).text
  | invalidTarget flaw pos =>
    "Invalid construct at line " ++ toString pos.line ++ ", offset " ++ toString pos.offset ++ ": "
      ++ flaw.message

end Failure

end MatlabFront
