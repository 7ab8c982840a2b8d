import MatlabFront.Proofs.Expression.Scope
import MatlabFront.Proofs.Program.Grammar

/-!
# Programs laid out as tokens

The ways in which a program can be written down. Any mix of separators stands behind each statement,
each condition and each header, expressions are what the parser of expressions takes them to be, and
a function need not be closed in front of another one or at the end of the program. Nothing here
says how statements are read.
-/

namespace MatlabFront

namespace Surface

/-- Separators, in any mix. -/
def Separators (gap : List Token) : Prop := ∀ token ∈ gap, token.kind.isSeparator = true

/-- One or more separators. -/
structure Gap (gap : List Token) : Prop where
  nonempty : gap ≠ []
  separators : Separators gap

/-- A run of tokens is an expression: the parser of expressions reads the run, and nothing else, in
front of a separator. -/
def Slot (run : List Token) (expr : Expr) : Prop :=
  ∃ (steps : Nat) (separator : Token) (later : List Token) (final : State),
    separator.kind.isSeparator = true ∧
      Parser.wholeExpression steps (.start (run ++ separator :: later)) = .done expr final ∧
      final.rest = separator :: later

/-- A token declares a parameter: a name, or a tilde for one that is ignored. -/
inductive Declares (token : Token) : Param → Prop where
  | name : token.kind = .ident → Declares token ⟨token.text, token.pos⟩
  | ignored : token.kind = .tilde → Declares token ⟨"~", token.pos⟩

/-- Parameters with commas between them. -/
inductive ParametersLaid : List Param → List Token → Prop where
  | one {token : Token} {param : Param} : Declares token param → ParametersLaid [param] [token]
  | cons {token comma : Token} {param : Param} {params : List Param} {run : List Token} :
    Declares token param → comma.kind = .comma → ParametersLaid params run →
      ParametersLaid (param :: params) (token :: comma :: run)

/-- What stands behind the name of a function: nothing, or the parameters in parentheses. -/
inductive InputsLaid : List Param → List Token → Prop where
  | none : InputsLaid [] []
  | empty {opening closing : Token} : opening.kind = .leftParen → closing.kind = .rightParen →
    InputsLaid [] [opening, closing]
  | list {opening closing : Token} {params : List Param} {run : List Token} :
    opening.kind = .leftParen → ParametersLaid params run → closing.kind = .rightParen →
      InputsLaid params (opening :: run ++ [closing])

/-- What stands in front of the name of a function: nothing, one name, or names in brackets, among
which commas may stand. An equals sign follows the names. -/
inductive OutputsLaid : List Ident → List Token → Prop where
  | none : OutputsLaid [] []
  | single {name sign : Token} : name.kind = .ident → sign.kind = .assign →
    OutputsLaid [Parser.declared name] [name, sign]
  | bracketed {opening closing sign : Token} {run : List Token} :
    opening.kind = .leftBracket → (∀ token ∈ run, token.kind = .ident ∨ token.kind = .comma) →
      closing.kind = .rightBracket → sign.kind = .assign →
      OutputsLaid ((run.filter (·.kind == .ident)).map Parser.declared)
        (opening :: run ++ [closing, sign])

/-- A part of a statement. -/
inductive Piece where
  | body (body : List Statement)
  | statement (statement : Statement)
  | tail (tail : Tail)
  | cases (cases : Cases)

/-- Some tokens are a part of a statement. -/
inductive Laid : Piece → List Token → Prop where
  | empty : Laid (.body []) []
  | body {first : Statement} {body : List Statement} {run gap later : List Token} :
    Laid (.statement first) run → Gap gap → Laid (.body body) later →
      Laid (.body (first :: body)) (run ++ gap ++ later)
  | eval {expr : Expr} {run : List Token} : Slot run expr → Laid (.statement (.eval expr)) run
  | assign {written : Statement} {left value : Expr} {sign : Token} {run more : List Token} :
    Slot run left → sign.kind = .assign → Slot more value → Assigns sign.pos left value written →
      Laid (.statement written) (run ++ sign :: more)
  | branch {condition : Expr} {body : List Statement} {tail : Tail} {keyword last : Token}
      {run gap inner more : List Token} :
    keyword.kind = .ifKeyword → Slot run condition → Gap gap → Laid (.body body) inner →
      Laid (.tail tail) more → last.kind = .endKeyword →
      Laid (.statement (.branch condition body tail keyword.pos))
        (keyword :: run ++ gap ++ inner ++ more ++ [last])
  | whileLoop {condition : Expr} {body : List Statement} {keyword last : Token}
      {run gap inner : List Token} :
    keyword.kind = .whileKeyword → Slot run condition → Gap gap → Laid (.body body) inner →
      last.kind = .endKeyword →
      Laid (.statement (.whileLoop condition body keyword.pos))
        (keyword :: run ++ gap ++ inner ++ [last])
  | forLoop {range : Expr} {body : List Statement} {keyword name sign last : Token}
      {run gap inner : List Token} :
    keyword.kind = .forKeyword → name.kind = .ident → sign.kind = .assign → Slot run range →
      Gap gap → Laid (.body body) inner → last.kind = .endKeyword →
      Laid (.statement (.forLoop (Parser.declared name) range body keyword.pos))
        (keyword :: name :: sign :: run ++ gap ++ inner ++ [last])
  | forEnclosed {range : Expr} {body : List Statement}
      {keyword opening name sign closing last : Token} {run gap inner : List Token} :
    keyword.kind = .forKeyword → opening.kind = .leftParen → name.kind = .ident →
      sign.kind = .assign → Slot run range → closing.kind = .rightParen → Gap gap →
      Laid (.body body) inner → last.kind = .endKeyword →
      Laid (.statement (.forLoop (Parser.declared name) range body keyword.pos))
        (keyword :: opening :: name :: sign :: run ++ closing :: gap ++ inner ++ [last])
  | switch {subject : Expr} {cases : Cases} {keyword last : Token} {run gap inner : List Token} :
    keyword.kind = .switchKeyword → Slot run subject → Gap gap → Laid (.cases cases) inner →
      last.kind = .endKeyword →
      Laid (.statement (.switch subject cases)) (keyword :: run ++ gap ++ inner ++ [last])
  | tryOnly {body : List Statement} {keyword last : Token} {gap inner : List Token} :
    keyword.kind = .tryKeyword → Separators gap → Laid (.body body) inner →
      last.kind = .endKeyword →
      Laid (.statement (.tryCatch body [] keyword.pos)) (keyword :: gap ++ inner ++ [last])
  | tryCatch {body handler : List Statement} {keyword middle last : Token}
      {gap inner space more : List Token} :
    keyword.kind = .tryKeyword → Separators gap → Laid (.body body) inner →
      middle.kind = .catchKeyword → Separators space → Laid (.body handler) more →
      last.kind = .endKeyword →
      Laid (.statement (.tryCatch body handler keyword.pos))
        (keyword :: gap ++ inner ++ middle :: space ++ more ++ [last])
  | leave {keyword : Token} : keyword.kind = .returnKeyword →
    Laid (.statement (.leave keyword.pos)) [keyword]
  | breakLoop {keyword : Token} : keyword.kind = .breakKeyword →
    Laid (.statement (.breakLoop keyword.pos)) [keyword]
  | continueLoop {keyword : Token} : keyword.kind = .continueKeyword →
    Laid (.statement (.continueLoop keyword.pos)) [keyword]
  | global {keyword : Token} {names : List Token} :
    keyword.kind = .globalKeyword → names ≠ [] → (∀ token ∈ names, token.kind = .ident) →
      Laid (.statement (.global (names.map Parser.declared) keyword.pos)) (keyword :: names)
  | noTail : Laid (.tail .none) []
  | otherwiseTail {body : List Statement} {keyword : Token} {gap inner : List Token} :
    keyword.kind = .elseKeyword → Separators gap → Laid (.body body) inner →
      Laid (.tail (.otherwise body)) (keyword :: gap ++ inner)
  | branchTail {condition : Expr} {body : List Statement} {tail : Tail} {keyword : Token}
      {run gap inner more : List Token} :
    keyword.kind = .elseIfKeyword → Slot run condition → Gap gap → Laid (.body body) inner →
      Laid (.tail tail) more →
      Laid (.tail (.branch condition body tail keyword.pos))
        (keyword :: run ++ gap ++ inner ++ more)
  | noCases : Laid (.cases .none) []
  | otherwiseCases {body : List Statement} {keyword : Token} {gap inner : List Token} :
    keyword.kind = .otherwiseKeyword → Separators gap → Laid (.body body) inner →
      Laid (.cases (.otherwise body)) (keyword :: gap ++ inner)
  | caseCases {value : Expr} {body : List Statement} {cases : Cases} {keyword : Token}
      {run gap inner more : List Token} :
    keyword.kind = .caseKeyword → Slot run value → Gap gap → Laid (.body body) inner →
      Laid (.cases cases) more →
      Laid (.cases (.case value body cases keyword.pos)) (keyword :: run ++ gap ++ inner ++ more)

/-- What closes a function in front of some tokens: its keyword and separators, or nothing at all in
front of the next function and at the end. -/
inductive Closes (later : List Token) : List Token → Prop where
  | written {last : Token} {gap : List Token} : last.kind = .endKeyword → Separators gap →
    Closes later (last :: gap)
  | omitted : (∀ token ∈ later.head?, token.kind = .functionKeyword) → Closes later []

/-- Some tokens are the statements and functions of a program. A function knows whether its body
uses the number of its arguments. -/
inductive ItemsLaid : List Item → List Token → Prop where
  | empty : ItemsLaid [] []
  | statement {first : Statement} {items : List Item} {run gap later : List Token} :
    Laid (.statement first) run → Gap gap → ItemsLaid items later →
      ItemsLaid (.statement first :: items) (run ++ gap ++ later)
  | function {outputs : List Ident} {params : List Param} {uses : Bool} {body : List Statement}
      {items : List Item} {keyword name : Token}
      {front behind gap inner closing later : List Token} :
    keyword.kind = .functionKeyword → OutputsLaid outputs front → name.kind = .ident →
      InputsLaid params behind → Gap gap → Laid (.body body) inner →
      (uses = true ↔ ∃ expr ∈ exprsAll body, expr.Uses "nargin") → Closes later closing →
      ItemsLaid items later →
      ItemsLaid (.function ⟨Parser.declared name, params, outputs, uses, keyword.pos⟩ body :: items)
        (keyword :: front ++ name :: behind ++ gap ++ inner ++ closing ++ later)

end Surface

end MatlabFront
