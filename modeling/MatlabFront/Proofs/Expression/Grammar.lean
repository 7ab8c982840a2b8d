import MatlabFront.Proofs.Expression.Table
import MatlabFront.Proofs.Parser.Outcome

/-!
# The grammar of expressions

The rules by which a parse goes from one state to another, one for each way in which a part of an
expression can be read. The rules mention no steps: `Reads phrase state final` says that the tokens
between the two states are the phrase, and carries the tree that they come to. What every accepted
expression has in common is proved by induction on these rules.
-/

namespace MatlabFront

/-- All operators that the first of some tokens can be are weaker than a power. -/
def Weaker (power : Nat) (rest : List Token) : Prop :=
  ∀ token ∈ rest.head?, ∀ left, token.kind.leftPower? = some left → left < power

/-- The first of some tokens is no operator. -/
def Operatorless (rest : List Token) : Prop :=
  ∀ token ∈ rest.head?, token.kind.leftPower? = none

/-- What is no operator is weaker than any power. -/
theorem Operatorless.weaker {rest : List Token} (operatorless : Operatorless rest) (power : Nat) :
    Weaker power rest := by
  intro token head left entry
  rw [operatorless token head] at entry
  cases entry

/-- Tokens begin with no operator when their first one is none. -/
theorem operatorless_cons {token : Token} {rest : List Token}
    (none : token.kind.leftPower? = none) : Operatorless (token :: rest) := by
  rintro _ ⟨⟩
  exact none

namespace State

/-- A colon here is a whole subscript. -/
def colonAlone (state : State) : Nesting → Bool
  | .group => [some Kind.comma, some .rightParen, some .rightBrace].contains state.secondKind
  | _ => false

/-- A tilde here is an output to ignore. -/
def tildeAlone (state : State) : Nesting → Bool
  | .elements => [some Kind.comma, some .rightBracket].contains state.secondKind
  | _ => false

/-- No operator of at least a power comes next in the element that is being read. -/
def Stops (state : State) (nesting : Nesting) (power : Nat) : Prop :=
  ∀ token, state.peek = some token →
    state.atGap nesting = true ∨ ∀ left, token.kind.leftPower? = some left → left < power

/-- The transpose marks that come next, as one text. -/
def marks (state : State) : String :=
  String.join ((state.rest.takeWhile (·.kind.isMark)).map (·.text))

/-- The parameter that the next token declares: a name, or a tilde for one that is ignored. -/
def param? (state : State) : Option Param :=
  match state.peek with
  | none => none
  | some token =>
    if token.kind = .tilde then some ⟨"~", token.pos⟩
    else if token.kind = .ident then some ⟨token.text, token.pos⟩
    else none

/-- The next token is a tilde or a name when it declares a parameter. -/
theorem token_of_param {state : State} {param : Param} (declares : state.param? = some param) :
    ∃ token, state.peek = some token ∧
      (token.kind = .tilde ∧ param = ⟨"~", token.pos⟩ ∨
        token.kind = .ident ∧ param = ⟨token.text, token.pos⟩) := by
  unfold param? at declares
  split at declares
  · cases declares
  · next token known =>
    refine ⟨token, known, ?_⟩
    split at declares
    · next tilde => exact .inl ⟨tilde, (Option.some.inj declares).symm⟩
    · split at declares
      · next word => exact .inr ⟨word, (Option.some.inj declares).symm⟩
      · cases declares

end State

namespace Parser

/-- Asking whether a colon is a whole subscript takes no token. -/
@[simp] theorem colonStandsAlone_apply (nesting : Nesting) (state : State) :
    colonStandsAlone nesting state = .done (state.colonAlone nesting) state := by
  cases nesting <;> unfold colonStandsAlone <;>
    simp only [bind_apply, secondKind_apply, Outcome.bind_done, State.colonAlone, pure_apply]
  cases state.secondKind with
  | none => rfl
  | some kind => cases kind <;> rfl

/-- Asking whether a tilde is an output to ignore takes no token. -/
@[simp] theorem tildeStandsAlone_apply (nesting : Nesting) (state : State) :
    tildeStandsAlone nesting state = .done (state.tildeAlone nesting) state := by
  cases nesting <;> unfold tildeStandsAlone <;>
    simp only [bind_apply, secondKind_apply, Outcome.bind_done, State.tildeAlone, pure_apply]
  cases state.secondKind with
  | none => rfl
  | some kind => cases kind <;> rfl

/-- The transpose marks that come next are taken together. -/
@[simp] theorem transposeMarks_apply (state : State) :
    transposeMarks state = .done state.marks (state.skip Kind.isMark) := rfl

end Parser

namespace Grammar

/-- A part of an expression, with what is known in front of it and the tree that it comes to. -/
inductive Phrase where
  | expression (nesting : Nesting) (power : Nat) (whole : Expr)
  /-- The operators behind a left operand. -/
  | operators (nesting : Nesting) (power : Nat) (left whole : Expr)
  | operand (nesting : Nesting) (whole : Expr)
  /-- What follows the sign of a function handle, which stands at a position. -/
  | handle (nesting : Nesting) (pos : Position) (whole : Expr)
  /-- What is left of a literal: the elements of the current row and the rows after it. -/
  | elements (close : Kind) (afterElement : Bool) (row : List Expr) (rows : List (List Expr))
  /-- A postfix operator, which begins with a token, applied to the operand before it. -/
  | suffix (left : Expr) (token : Token) (whole : Expr)
  /-- The arguments behind an opening bracket, and the closing one. -/
  | arguments (close : Kind) (args : List Expr)
  | argumentsFrom (close : Kind) (args : List Expr)
  /-- A list of parameters with both of its parentheses. -/
  | parameters (params : List Param)
  | parametersFrom (params : List Param)

/-- A phrase is what its parser reads between two states with some steps. -/
def Phrase.Accepted (steps : Nat) (s final : State) : Phrase → Prop
  | .expression nesting power whole =>
    Parser.expression steps nesting power s = .done whole final
  | .operators nesting power left whole =>
    Parser.operators steps nesting power left s = .done whole final
  | .operand nesting whole => Parser.operand steps nesting s = .done whole final
  | .handle nesting pos whole => Parser.handle steps nesting pos s = .done whole final
  | .elements close afterElement row rows =>
    Parser.elements steps close afterElement s = .done (row, rows) final
  | .suffix left token whole =>
    s.peek = some token ∧ ∃ operator, token.kind.postfixOperator? = some operator ∧
      Parser.postfixNode steps left operator token.pos s = .done whole final
  | .arguments close args => Parser.arguments steps close s = .done args final
  | .argumentsFrom close args => Parser.argumentsFrom steps close s = .done args final
  | .parameters params => Parser.parameters steps s = .done params final
  | .parametersFrom params => Parser.parametersFrom steps s = .done params final

/-- A phrase is read between two states. -/
inductive Reads : Phrase → State → State → Prop where
  | expression {nesting : Nesting} {power : Nat} {left whole : Expr} {s s₁ s₂ : State} :
    Reads (.operand nesting left) s s₁ → Reads (.operators nesting power left whole) s₁ s₂ →
      Reads (.expression nesting power whole) s s₂
  | stop {nesting : Nesting} {power : Nat} {left : Expr} {s : State} :
    s.Stops nesting power → Reads (.operators nesting power left left) s s
  | postfixed {nesting : Nesting} {power : Nat} {left middle whole : Expr}
      {token : Token} {operator : PostfixOperator} {s s₁ s₂ : State} :
    s.peek = some token → s.atGap nesting = false →
      token.kind.postfixOperator? = some operator → power ≤ operator.leftPower →
      Reads (.suffix left token middle) s s₁ → Reads (.operators nesting power middle whole) s₁ s₂ →
      Reads (.operators nesting power left whole) s s₂
  | infixed {nesting : Nesting} {power : Nat} {left right whole : Expr}
      {token : Token} {operator : InfixOperator} {s s₁ s₂ : State} :
    s.peek = some token → s.atGap nesting = false →
      token.kind.infixOperator? = some operator → power ≤ operator.leftPower →
      Reads (.expression nesting operator.rightPower right) s.next s₁ →
      Reads (.operators nesting power (.infixNode operator left right token.pos) whole) s₁ s₂ →
      Reads (.operators nesting power left whole) s s₂
  | ident {nesting : Nesting} {token : Token} {s : State} :
    s.peek = some token → token.kind = .ident →
      Reads (.operand nesting (.ident (Parser.declared token))) s (s.next.note token.text)
  | number {nesting : Nesting} {token : Token} {s : State} :
    s.peek = some token → token.kind = .number →
      Reads (.operand nesting (.number token.text token.pos)) s s.next
  | string {nesting : Nesting} {token : Token} {s : State} :
    s.peek = some token → token.kind = .string →
      Reads (.operand nesting (.string (Literal.unquote token.text) token.pos)) s s.next
  | lastIndex {nesting : Nesting} {token : Token} {s : State} :
    s.peek = some token → token.kind = .endKeyword → token.text = "end" → nesting ≠ .outside →
      Reads (.operand nesting (.lastIndex token.pos)) s s.next
  | colon {nesting : Nesting} {token : Token} {s : State} :
    s.peek = some token → token.kind = .colon → s.colonAlone nesting = true →
      Reads (.operand nesting (.colon token.pos)) s s.next
  | ignored {nesting : Nesting} {token : Token} {s : State} :
    s.peek = some token → token.kind = .tilde → s.tildeAlone nesting = true →
      Reads (.operand nesting (.ident ⟨"~", token.pos⟩)) s s.next
  | unary {nesting : Nesting} {operator : UnaryOperator} {inner : Expr} {token : Token}
      {s s₁ : State} :
    s.peek = some token → token.kind.unaryOperator? = some operator →
      (token.kind = .tilde → s.tildeAlone nesting = false) →
      Reads (.expression nesting UnaryOperator.operandPower inner) s.next s₁ →
      Reads (.operand nesting (.unary operator inner token.pos)) s s₁
  | atSign {nesting : Nesting} {whole : Expr} {token : Token} {s s₁ : State} :
    s.peek = some token → token.kind = .atSign → Reads (.handle nesting token.pos whole) s.next s₁ →
      Reads (.operand nesting whole) s s₁
  | parens {nesting : Nesting} {inner : Expr} {token : Token} {s s₁ : State} :
    s.peek = some token → token.kind = .leftParen → Reads (.expression .group 0 inner) s.next s₁ →
      s₁.peekKind = some .rightParen →
      Reads (.operand nesting (.parens inner token.pos)) s s₁.next
  | matrix {nesting : Nesting} {row : List Expr} {rows : List (List Expr)} {token : Token}
      {s s₁ : State} :
    s.peek = some token → token.kind = .leftBracket →
      Reads (.elements .rightBracket false row rows) s.next s₁ →
      Reads (.operand nesting (.matrix (Parser.rowsOf row rows) token.pos)) s s₁
  | cell {nesting : Nesting} {row : List Expr} {rows : List (List Expr)} {token : Token}
      {s s₁ : State} :
    s.peek = some token → token.kind = .leftBrace →
      Reads (.elements .rightBrace false row rows) s.next s₁ →
      Reads (.operand nesting (.cell (Parser.rowsOf row rows) token.pos)) s s₁
  | lambda {nesting : Nesting} {pos : Position} {params : List Param} {body : Expr}
      {s s₁ s₂ : State} :
    s.peekKind = some .leftParen → Reads (.parameters params) s s₁ →
      Reads (.expression nesting lambdaBodyPower body) s₁ s₂ →
      Reads (.handle nesting pos (.lambda params body pos)) s s₂
  | named {nesting : Nesting} {pos : Position} {token : Token} {s : State} :
    s.peek = some token → token.kind = .ident →
      Reads (.handle nesting pos (.handle (Parser.declared token) pos)) s s.next
  | close {close : Kind} {afterElement : Bool} {s : State} :
    s.peekKind = some close → Reads (.elements close afterElement [] []) s s.next
  | rowEnd {close kind : Kind} {afterElement : Bool} {row : List Expr} {rows : List (List Expr)}
      {s s₁ : State} :
    s.peekKind = some kind → kind ≠ close → kind = .semicolon ∨ kind = .newline →
      Reads (.elements close false row rows) s.next s₁ →
      Reads (.elements close afterElement [] (Parser.rowsOf row rows)) s s₁
  | comma {close : Kind} {row : List Expr} {rows : List (List Expr)} {s s₁ : State} :
    s.peekKind = some .comma → .comma ≠ close → Reads (.elements close false row rows) s.next s₁ →
      Reads (.elements close true row rows) s s₁
  | element {close kind : Kind} {afterElement : Bool} {first : Expr} {row : List Expr}
      {rows : List (List Expr)} {s s₁ s₂ : State} :
    s.peekKind = some kind → kind ≠ close → kind.isSeparator = false →
      Reads (.expression .elements 0 first) s s₁ → Reads (.elements close true row rows) s₁ s₂ →
      Reads (.elements close afterElement (first :: row) rows) s s₂
  | call {left : Expr} {args : List Expr} {token : Token} {s s₁ : State} :
    s.peek = some token → token.kind = .leftParen → Reads (.arguments .rightParen args) s.next s₁ →
      Reads (.suffix left token (left.apply args)) s s₁
  | cellIndex {left : Expr} {args : List Expr} {token : Token} {s s₁ : State} :
    s.peek = some token → token.kind = .leftBrace → Reads (.arguments .rightBrace args) s.next s₁ →
      Reads (.suffix left token (.cellIndex left args left.pos)) s s₁
  | member {left : Expr} {token name : Token} {s : State} :
    s.peek = some token → token.kind = .dot → s.next.peek = some name → name.kind = .ident →
      Reads (.suffix left token (.member left (.named (Parser.declared name)) token.pos)) s
        s.next.next
  | dynamic {left inner : Expr} {token : Token} {s s₁ : State} :
    s.peek = some token → token.kind = .dot → s.next.peekKind = some .leftParen →
      Reads (.expression .group 0 inner) s.next.next s₁ → s₁.peekKind = some .rightParen →
      Reads (.suffix left token (.member left (.dynamic inner) token.pos)) s s₁.next
  | transpose {left : Expr} {token : Token} {s : State} :
    s.peek = some token → token.kind.isMark = true →
      Reads (.suffix left token (.transpose left s.marks token.pos)) s (s.skip Kind.isMark)
  | noArguments {close : Kind} {s : State} :
    s.peekKind = some close → Reads (.arguments close []) s s.next
  | arguments {close : Kind} {args : List Expr} {s s₁ : State} :
    s.peekKind ≠ some close → Reads (.argumentsFrom close args) s s₁ →
      Reads (.arguments close args) s s₁
  | argument {close : Kind} {first : Expr} {args : List Expr} {s s₁ s₂ : State} :
    Reads (.expression .group 0 first) s s₁ → s₁.peekKind = some .comma →
      Reads (.argumentsFrom close args) s₁.next s₂ →
      Reads (.argumentsFrom close (first :: args)) s s₂
  | lastArgument {close : Kind} {last : Expr} {s s₁ : State} :
    Reads (.expression .group 0 last) s s₁ → s₁.peekKind = some close → close ≠ .comma →
      Reads (.argumentsFrom close [last]) s s₁.next
  | noParameters {s : State} :
    s.peekKind = some .leftParen → s.next.peekKind = some .rightParen →
      Reads (.parameters []) s s.next.next
  | parameters {params : List Param} {s s₁ : State} :
    s.peekKind = some .leftParen → s.next.peekKind ≠ some .rightParen →
      Reads (.parametersFrom params) s.next s₁ → Reads (.parameters params) s s₁
  | parameter {params : List Param} {param : Param} {s s₁ : State} :
    s.param? = some param → s.next.peekKind = some .comma →
      Reads (.parametersFrom params) s.next.next s₁ →
      Reads (.parametersFrom (param :: params)) s s₁
  | lastParameter {param : Param} {s : State} :
    s.param? = some param → s.next.peekKind = some .rightParen →
      Reads (.parametersFrom [param]) s s.next.next

/-- The rows of a literal have the elements that were read. -/
theorem flatten_rowsOf (row : List Expr) (rows : List (List Expr)) :
    (Parser.rowsOf row rows).flatten = row ++ rows.flatten := by
  unfold Parser.rowsOf
  cases row <;> rfl

end Grammar

end MatlabFront
