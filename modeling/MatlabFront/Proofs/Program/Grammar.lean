import MatlabFront.Parser.Program
import MatlabFront.Proofs.Expression.Grammar
import MatlabFront.Proofs.Parser.Command
import MatlabFront.Proofs.Program.Surface

/-!
# The grammar of programs

The rules by which statements, blocks and functions are read from one state to another. As with
expressions there is one rule for each way of reading a part, without steps. A rule says which
keyword begins a statement, so that only a `switch` is read as a switch.
-/

namespace MatlabFront

namespace State

/-- The next token separates statements. -/
def atSeparator (state : State) : Bool := state.peekKind.any Kind.isSeparator

/-- A statement can end here. -/
def atTerminator (state : State) : Bool :=
  state.peekKind.all fun kind => kind.isSeparator || kind.isBlockKeyword

/-- The state behind the separators that come next. -/
def skipSeparators (state : State) : State := state.skip Kind.isSeparator

/-- The state after an event. -/
def log (state : State) (event : Event) : State := { state with events := event :: state.events }

/-- The state behind what is read over after a malformed condition. -/
def resume (state : State) : State :=
  match state.peek with
  | none => state
  | some token =>
    (state.log (.resynchronized token.pos.line token.text)).skip fun kind =>
      !(kind.startsStatement || kind.isSeparator || kind.isBlockKeyword)

/-- The header of a `for` is in parentheses. -/
def headerEnclosed (state : State) : Bool :=
  state.peekKind == some .leftParen && state.secondKind == some .ident &&
    state.thirdKind == some .assign

/-- A header in parentheses begins with one. -/
theorem peekKind_of_headerEnclosed {state : State} (enclosed : state.headerEnclosed = true) :
    state.peekKind = some .leftParen := by
  simp only [headerEnclosed, Bool.and_eq_true, beq_iff_eq] at enclosed
  exact enclosed.1.1

/-- The outputs of the function that is being read. -/
def outputs (state : State) : List Ident := state.scope.elim [] (·.outputs)

/-- The state in front of the body of a function. -/
def enter (state : State) (head : Header) : State :=
  { state.log (.functionOpened head.name.name) with scope := some ⟨head.outputs, false⟩ }

/-- The function behind whose body a state stands used the number of its arguments. -/
def usesNargin (state : State) : Bool := state.scope.any (·.usesNargin)

/-- The state behind the closing keyword of a function, if it has one. -/
def leave (state : State) : State :=
  let left := { state with scope := none }
  if left.peekKind = some .endKeyword then left.next else left

end State

namespace Surface

/-- The first token of a statement is no keyword of one. -/
def startsPlain : Option Kind → Bool
  | some .ifKeyword | some .whileKeyword | some .forKeyword | some .switchKeyword
  | some .tryKeyword | some .globalKeyword | some .breakKeyword | some .continueKeyword
  | some .returnKeyword => false
  | _ => true

/-- The event of a switch, which a switch without cases does not have. -/
def Cases.logged (state : State) : Cases → State
  | .case _ _ _ pos => state.log (.switchLowered pos.line)
  | _ => state

/-- A part of a program. -/
inductive Part where
  /-- The statements up to a keyword. -/
  | block (ends : Kind → Bool) (body : List Statement)
  /-- A statement, behind which a statement can end. -/
  | statement (statement : Statement)
  | openStatement (statement : Statement)
  | tail (tail : Tail)
  | cases (cases : Cases)
  | items (items : List Item)

/-- What is read between the condition of an `if` and its body. The lenient dialect reads over what
follows a malformed condition. -/
inductive Separated (dialect : Dialect) : State → State → Prop where
  | separator {s : State} : s.atSeparator = true → Separated dialect s s
  | resumed {s : State} : s.atSeparator = false → dialect = .matlab → Separated dialect s s.resume

/-- Names without separators between them. -/
inductive Names : List Ident → State → State → Prop where
  | stop {s : State} : s.peekKind ≠ some .ident → Names [] s s
  | name {names : List Ident} {token : Token} {s s₁ : State} :
    s.peek = some token → token.kind = .ident → Names names (s.next.note token.text) s₁ →
      Names (Parser.declared token :: names) s s₁

/-- The variable of a `for` and the expression that it runs over. -/
inductive ForHead (var : Ident) (range : Expr) : State → State → Prop where
  | mk {token : Token} {s s₁ : State} :
    s.peek = some token → token.kind = .ident → var = Parser.declared token →
      (s.next.note token.text).peekKind = some .assign →
      Grammar.Reads (.expression .outside 0 range) (s.next.note token.text).next s₁ →
      ForHead var range s s₁

/-- The outputs in the brackets of a function, behind the opening one, and the closing one. -/
inductive BracketedOutputs : List Ident → State → State → Prop where
  | close {s : State} : s.peekKind = some .rightBracket → BracketedOutputs [] s s.next
  | comma {names : List Ident} {s s₁ : State} : s.peekKind = some .comma →
    BracketedOutputs names s.next s₁ → BracketedOutputs names s s₁
  | name {names : List Ident} {token : Token} {s s₁ : State} :
    s.peek = some token → token.kind = .ident → BracketedOutputs names s.next s₁ →
      BracketedOutputs (Parser.declared token :: names) s s₁

/-- The outputs of a function and the equals sign behind them. -/
inductive Outputs : List Ident → State → State → Prop where
  | bracketed {names : List Ident} {s s₁ : State} : s.peekKind = some .leftBracket →
    BracketedOutputs names s.next s₁ → s₁.peekKind = some .assign → Outputs names s s₁.next
  | single {token : Token} {s : State} : s.peek = some token → token.kind = .ident →
    s.secondKind = some .assign → Outputs [Parser.declared token] s s.next.next
  | none {s : State} : s.peekKind ≠ some .leftBracket →
    ¬(s.peekKind = some .ident ∧ s.secondKind = some .assign) → Outputs [] s s

/-- The parameters of a function, which need not have any parentheses. -/
inductive Parameters : List Param → State → State → Prop where
  | list {params : List Param} {s s₁ : State} : s.peekKind = some .leftParen →
    Grammar.Reads (.parameters params) s s₁ → Parameters params s s₁
  | none {s : State} : s.peekKind ≠ some .leftParen → Parameters [] s s

/-- The head of a function at a position. -/
inductive Head (pos : Position) : Header → State → State → Prop where
  | mk {outputs : List Ident} {params : List Param} {token : Token} {s s₁ s₂ : State} :
    Outputs outputs s s₁ → s₁.peek = some token → token.kind = .ident →
      Parameters params s₁.next s₂ →
      Head pos ⟨Parser.declared token, params, outputs, false, pos⟩ s s₂

/-- What an assignment of a value to an expression comes to. -/
inductive Assigns (pos : Position) : Expr → Expr → Statement → Prop where
  | one {left value : Expr} {target : Target} : Target.ofExpr? left = some target →
    Assigns pos left value (.assign target value pos)
  | name {row : List Expr} {targets : List Target} {function : Ident} {start : Position} :
    row ≠ [] → row.map Target.ofExpr? = targets.map some →
      Assigns pos (.matrix [row] start) (.ident function)
        (.assignAll targets (.ident function) [] function.pos)
  | call {row : List Expr} {targets : List Target} {callee : Expr} {args : List Expr}
      {start callPos : Position} :
    row ≠ [] → row.map Target.ofExpr? = targets.map some →
      Assigns pos (.matrix [row] start) (.call (.mk callee args none callPos))
        (.assignAll targets callee args callPos)

/-- A part of a program is read between two states. -/
inductive Reads (dialect : Dialect) : Part → State → State → Prop where
  | blockEnd {ends : Kind → Bool} {s : State} : s.skipSeparators.peekKind.all ends = true →
    Reads dialect (.block ends []) s s.skipSeparators
  | block {ends : Kind → Bool} {first : Statement} {body : List Statement} {kind : Kind}
      {s s₁ s₂ : State} :
    s.skipSeparators.peekKind = some kind → ends kind = false → kind.isBlockKeyword = false →
      Reads dialect (.statement first) s.skipSeparators s₁ →
      Reads dialect (.block ends body) s₁ s₂ → Reads dialect (.block ends (first :: body)) s s₂
  | statement {statement : Statement} {s s₁ : State} :
    Reads dialect (.openStatement statement) s s₁ → s₁.atTerminator = true →
      Reads dialect (.statement statement) s s₁
  | eval {expr : Expr} {s s₁ : State} :
    startsPlain s.peekKind = true → dialect = .strict ∨ Command.begins s.rest = false →
      Grammar.Reads (.expression .outside 0 expr) s s₁ → s₁.peekKind ≠ some .assign →
      Reads dialect (.openStatement (.eval expr)) s s₁
  | assign {statement : Statement} {left value : Expr} {token : Token} {s s₁ s₂ : State} :
    startsPlain s.peekKind = true → dialect = .strict ∨ Command.begins s.rest = false →
      Grammar.Reads (.expression .outside 0 left) s s₁ → s₁.peek = some token →
      token.kind = .assign → Grammar.Reads (.expression .outside 0 value) s₁.next s₂ →
      Assigns token.pos left value statement → Reads dialect (.openStatement statement) s s₂
  | command {call : Call} {s s₁ : State} :
    startsPlain s.peekKind = true → dialect = .matlab → Command.begins s.rest = true →
      Parser.command s = .done (.call call) s₁ →
      Reads dialect (.openStatement (.command call)) s s₁
  | branch {condition : Expr} {body : List Statement} {tail : Tail} {token : Token}
      {s s₁ s₂ s₃ s₄ : State} :
    s.peek = some token → token.kind = .ifKeyword →
      Grammar.Reads (.expression .outside 0 condition) s.next s₁ → Separated dialect s₁ s₂ →
      Reads dialect (.block Parser.endsBranch body) s₂ s₃ → Reads dialect (.tail tail) s₃ s₄ →
      s₄.peekKind = some .endKeyword →
      Reads dialect (.openStatement (.branch condition body tail token.pos)) s s₄.next
  | whileLoop {condition : Expr} {body : List Statement} {token : Token} {s s₁ s₂ : State} :
    s.peek = some token → token.kind = .whileKeyword →
      Grammar.Reads (.expression .outside 0 condition) s.next s₁ → s₁.atSeparator = true →
      Reads dialect (.block (· == .endKeyword) body) s₁ s₂ → s₂.peekKind = some .endKeyword →
      Reads dialect (.openStatement (.whileLoop condition body token.pos)) s s₂.next
  | forLoop {var : Ident} {range : Expr} {body : List Statement} {token : Token}
      {s s₁ s₂ : State} :
    s.peek = some token → token.kind = .forKeyword → s.next.headerEnclosed = false →
      ForHead var range s.next s₁ → s₁.atSeparator = true →
      Reads dialect (.block (· == .endKeyword) body) s₁ s₂ → s₂.peekKind = some .endKeyword →
      Reads dialect (.openStatement (.forLoop var range body token.pos)) s s₂.next
  | forEnclosed {var : Ident} {range : Expr} {body : List Statement} {token : Token}
      {s s₁ s₂ : State} :
    s.peek = some token → token.kind = .forKeyword → s.next.headerEnclosed = true →
      ForHead var range s.next.next s₁ → s₁.peekKind = some .rightParen →
      s₁.next.atSeparator = true → Reads dialect (.block (· == .endKeyword) body) s₁.next s₂ →
      s₂.peekKind = some .endKeyword →
      Reads dialect (.openStatement (.forLoop var range body token.pos)) s s₂.next
  | switch {subject : Expr} {cases : Cases} {s s₁ s₂ : State} :
    s.peekKind = some .switchKeyword →
      Grammar.Reads (.expression .outside 0 subject) s.next s₁ → s₁.atSeparator = true →
      Reads dialect (.cases cases) s₁ s₂ → s₂.peekKind = some .endKeyword →
      Reads dialect (.openStatement (.switch subject cases)) s (cases.logged s₂.next)
  | tryOnly {body : List Statement} {token : Token} {s s₁ : State} :
    s.peek = some token → token.kind = .tryKeyword →
      Reads dialect (.block Parser.endsTry body) s.next s₁ → s₁.peekKind = some .endKeyword →
      Reads dialect (.openStatement (.tryCatch body [] token.pos)) s s₁.next
  | tryCatch {body handler : List Statement} {token : Token} {s s₁ s₂ : State} :
    s.peek = some token → token.kind = .tryKeyword →
      Reads dialect (.block Parser.endsTry body) s.next s₁ → s₁.peekKind = some .catchKeyword →
      Reads dialect (.block (· == .endKeyword) handler) s₁.next s₂ →
      s₂.peekKind = some .endKeyword →
      Reads dialect (.openStatement (.tryCatch body handler token.pos)) s s₂.next
  | global {name : Ident} {names : List Ident} {token : Token} {s s₁ : State} :
    s.peek = some token → token.kind = .globalKeyword → Names (name :: names) s.next s₁ →
      Reads dialect (.openStatement (.global (name :: names) token.pos)) s s₁
  | breakLoop {token : Token} {s : State} : s.peek = some token → token.kind = .breakKeyword →
    Reads dialect (.openStatement (.breakLoop token.pos)) s s.next
  | continueLoop {token : Token} {s : State} :
    s.peek = some token → token.kind = .continueKeyword →
      Reads dialect (.openStatement (.continueLoop token.pos)) s s.next
  | leave {token : Token} {s : State} : s.peek = some token → token.kind = .returnKeyword →
    Reads dialect (.openStatement (.leave token.pos)) s s.next
  | noTail {s : State} : s.peekKind ≠ some .elseIfKeyword → s.peekKind ≠ some .elseKeyword →
    Reads dialect (.tail .none) s s
  | otherwiseTail {body : List Statement} {s s₁ : State} : s.peekKind = some .elseKeyword →
    Reads dialect (.block (· == .endKeyword) body) s.next s₁ →
      Reads dialect (.tail (.otherwise body)) s s₁
  | branchTail {condition : Expr} {body : List Statement} {tail : Tail} {token : Token}
      {s s₁ s₂ s₃ : State} :
    s.peek = some token → token.kind = .elseIfKeyword →
      Grammar.Reads (.expression .outside 0 condition) s.next s₁ → s₁.atSeparator = true →
      Reads dialect (.block Parser.endsBranch body) s₁ s₂ → Reads dialect (.tail tail) s₂ s₃ →
      Reads dialect (.tail (.branch condition body tail token.pos)) s s₃
  | noCases {s : State} : s.skipSeparators.peekKind ≠ some .caseKeyword →
    s.skipSeparators.peekKind ≠ some .otherwiseKeyword →
      Reads dialect (.cases .none) s s.skipSeparators
  | otherwiseCases {body : List Statement} {s s₁ : State} :
    s.skipSeparators.peekKind = some .otherwiseKeyword →
      Reads dialect (.block (· == .endKeyword) body) s.skipSeparators.next s₁ →
      Reads dialect (.cases (.otherwise body)) s s₁
  | caseCases {value : Expr} {body : List Statement} {cases : Cases} {token : Token}
      {s s₁ s₂ s₃ : State} :
    s.skipSeparators.peek = some token → token.kind = .caseKeyword →
      Grammar.Reads (.expression .outside 0 value) s.skipSeparators.next s₁ →
      s₁.atSeparator = true → Reads dialect (.block Parser.endsCase body) s₁ s₂ →
      Reads dialect (.cases cases) s₂ s₃ →
      Reads dialect (.cases (.case value body cases token.pos)) s s₃
  | noItems {s : State} : s.skipSeparators.peek = none →
    Reads dialect (.items []) s s.skipSeparators
  | item {first : Statement} {items : List Item} {kind : Kind} {s s₁ s₂ : State} :
    s.skipSeparators.peekKind = some kind → kind.isBlockKeyword = false →
      Reads dialect (.statement first) s.skipSeparators s₁ → Reads dialect (.items items) s₁ s₂ →
      Reads dialect (.items (.statement first :: items)) s s₂
  | function {head : Header} {body : List Statement} {items : List Item} {token : Token}
      {event : Event} {s s₁ s₂ s₃ : State} :
    s.skipSeparators.peek = some token → token.kind = .functionKeyword →
      Head token.pos head s.skipSeparators.next s₁ →
      Reads dialect (.block Parser.endsFunction body) (s₁.enter head) s₂ →
      Reads dialect (.items items) (s₂.leave.log event) s₃ →
      event = .functionClosed head.name.name (closed head (lowerAll head.outputs body)).length
        s₂.usesNargin →
      Reads dialect (.items (.function { head with usesNargin := s₂.usesNargin } body :: items))
        s s₃

end Surface

end MatlabFront
