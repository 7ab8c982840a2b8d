import MatlabFront.Proofs.Expression.Grammar
import MatlabFront.Proofs.Parser.Advance
import MatlabFront.Proofs.Tree.Positions

/-!
# Where the nodes of an expression stand

Every node of an expression carries the position of one token, the one that names it best. Located
relates an expression to the tokens that it is read from and says of every node which of these that
is: the sign of an operator, the first colon of a range, the first mark of a transpose, the bracket
that opens a literal. A call or subscript stands where its callee does.
-/

namespace MatlabFront

/-- A token declares a parameter: by its name, or as a tilde for one that is ignored. -/
def Param.DeclaredBy (param : Param) (token : Token) : Prop :=
  param.pos = token.pos ∧
    (token.kind = .ident ∧ param.name = token.text ∨ token.kind = .tilde ∧ param.name = "~")

mutual

/-- An expression is read from exactly some tokens, and each of its nodes carries the position of
the token that names it. -/
inductive Expr.Located : List Token → Expr → Prop where
  | ident {token : Token} : token.kind = .ident →
    Expr.Located [token] (.ident ⟨token.text, token.pos⟩)
  | ignored {token : Token} : token.kind = .tilde → Expr.Located [token] (.ident ⟨"~", token.pos⟩)
  | number {token : Token} : token.kind = .number →
    Expr.Located [token] (.number token.text token.pos)
  | string {token : Token} : token.kind = .string →
    Expr.Located [token] (.string (Literal.unquote token.text) token.pos)
  | colon {token : Token} : token.kind = .colon → Expr.Located [token] (.colon token.pos)
  | lastIndex {token : Token} : token.kind = .endKeyword →
    Expr.Located [token] (.lastIndex token.pos)
  | shortRange {start stop : Expr} {colon : Token} {front back : List Token} :
    start.Located front → colon.kind = .colon → stop.Located back →
      Expr.Located (front ++ colon :: back) (.range start none stop colon.pos)
  /-- The first colon names a range, also when another one follows. -/
  | longRange {start step stop : Expr} {first second : Token} {front middle back : List Token} :
    start.Located front → first.kind = .colon → step.Located middle → second.kind = .colon →
      stop.Located back →
      Expr.Located (front ++ first :: (middle ++ second :: back))
        (.range start (some step) stop first.pos)
  | unary {operator : UnaryOperator} {operand : Expr} {sign : Token} {run : List Token} :
    sign.kind.unaryOperator? = some operator → operand.Located run →
      Expr.Located (sign :: run) (.unary operator operand sign.pos)
  | binary {left right : Expr} {operator : BinaryOperator} {sign : Token}
      {front back : List Token} :
    left.Located front → sign.kind.infixOperator?.map (·.action) = some (.binary operator) →
      right.Located back →
      Expr.Located (front ++ sign :: back) (.binary left operator right sign.pos)
  | matrix {rows : List (List Expr)} {opens closes : Token} {run : List Token} :
    opens.kind = .leftBracket → ElementsLocated run rows.flatten → closes.kind = .rightBracket →
      Expr.Located (opens :: run ++ [closes]) (.matrix rows opens.pos)
  | cell {rows : List (List Expr)} {opens closes : Token} {run : List Token} :
    opens.kind = .leftBrace → ElementsLocated run rows.flatten → closes.kind = .rightBrace →
      Expr.Located (opens :: run ++ [closes]) (.cell rows opens.pos)
  | call {callee : Expr} {args : List Expr} {opens closes : Token} {front run : List Token} :
    callee.Located front → opens.kind = .leftParen → ElementsLocated run args →
      closes.kind = .rightParen →
      Expr.Located (front ++ (opens :: run ++ [closes])) (.call (.mk callee args none callee.pos))
  | flatten {object : Expr} {args : List Expr} {opens closes : Token} {front run : List Token} :
    object.Located front → opens.kind = .leftParen → ElementsLocated run args →
      closes.kind = .rightParen →
      Expr.Located (front ++ (opens :: run ++ [closes])) (.flatten object args object.pos)
  | cellIndex {object : Expr} {args : List Expr} {opens closes : Token}
      {front run : List Token} :
    object.Located front → opens.kind = .leftBrace → ElementsLocated run args →
      closes.kind = .rightBrace →
      Expr.Located (front ++ (opens :: run ++ [closes])) (.cellIndex object args object.pos)
  | named {object : Expr} {dot name : Token} {front : List Token} :
    object.Located front → dot.kind = .dot → name.kind = .ident →
      Expr.Located (front ++ [dot, name])
        (.member object (.named ⟨name.text, name.pos⟩) dot.pos)
  | dynamic {object name : Expr} {dot opens closes : Token} {front run : List Token} :
    object.Located front → dot.kind = .dot → opens.kind = .leftParen → name.Located run →
      closes.kind = .rightParen →
      Expr.Located (front ++ (dot :: opens :: run ++ [closes]))
        (.member object (.dynamic name) dot.pos)
  /-- The marks of a transpose are all of their run: no mark stands in front of the first. -/
  | transpose {operand : Expr} {first : Token} {front marks : List Token} :
    operand.Located front → (∀ last ∈ front.getLast?, last.kind.isMark = false) →
      (∀ mark ∈ first :: marks, mark.kind.isMark = true) →
      Expr.Located (front ++ first :: marks)
        (.transpose operand (String.join ((first :: marks).map (·.text))) first.pos)
  | lambda {params : List Param} {body : Expr} {sign opens closes : Token}
      {inside run : List Token} :
    sign.kind = .atSign → opens.kind = .leftParen →
      (∀ param ∈ params, ∃ token ∈ inside, param.DeclaredBy token) →
      closes.kind = .rightParen → body.Located run →
      Expr.Located (sign :: opens :: inside ++ closes :: run) (.lambda params body sign.pos)
  | handle {sign name : Token} : sign.kind = .atSign → name.kind = .ident →
    Expr.Located [sign, name] (.handle ⟨name.text, name.pos⟩ sign.pos)
  | parens {inner : Expr} {opens closes : Token} {run : List Token} :
    opens.kind = .leftParen → inner.Located run → closes.kind = .rightParen →
      Expr.Located (opens :: run ++ [closes]) (.parens inner opens.pos)

/-- Some expressions are read from some tokens, in order and with separators between them. -/
inductive ElementsLocated : List Token → List Expr → Prop where
  | nil : ElementsLocated [] []
  | separator {exprs : List Expr} {token : Token} {run : List Token} :
    token.kind.isSeparator = true → ElementsLocated run exprs → ElementsLocated (token :: run) exprs
  | cons {expr : Expr} {exprs : List Expr} {front back : List Token} :
    expr.Located front → ElementsLocated back exprs →
      ElementsLocated (front ++ back) (expr :: exprs)

end

/-- An expression is read from at least one token. -/
theorem Expr.Located.ne_nil {expr : Expr} {run : List Token} (located : expr.Located run) :
    run ≠ [] := by
  cases located <;> simp

/-- The positions of declared parameters are those of the tokens that declare them. -/
theorem Param.positions_subset {params : List Param} {inside : List Token}
    (declared : ∀ param ∈ params, ∃ token ∈ inside, param.DeclaredBy token) :
    params.map Param.pos ⊆ inside.map Token.pos := by
  intro pos among
  obtain ⟨param, here, rfl⟩ := List.mem_map.mp among
  obtain ⟨token, there, same, -⟩ := declared param here
  exact List.mem_map.mpr ⟨token, there, same.symm⟩

mutual

/-- Every position in an expression is that of a token that it is read from. -/
theorem Expr.Located.positions_subset : ∀ {run : List Token} {expr : Expr}, expr.Located run →
    expr.positions ⊆ run.map Token.pos
  | _, _, .ident _ | _, _, .ignored _ | _, _, .number _ | _, _, .string _ | _, _, .colon _
  | _, _, .lastIndex _ | _, _, .handle _ _ => by simp [Expr.positions]
  | _, _, .shortRange start _ stop | _, _, .binary start _ stop => by
    have before := start.positions_subset
    have behind := stop.positions_subset
    grind [Expr.positions]
  | _, _, .longRange start _ step _ stop => by
    have before := start.positions_subset
    have between := step.positions_subset
    have behind := stop.positions_subset
    grind [Expr.positions]
  | _, _, .unary _ operand | _, _, .parens _ operand _ | _, _, .transpose operand _ _ => by
    have inner := operand.positions_subset
    grind [Expr.positions]
  | _, _, .matrix _ elements _ | _, _, .cell _ elements _ => by
    have inside := elements.positions_subset
    grind [Expr.positions, mem_rowPositions]
  | _, _, .call callee _ args _ | _, _, .flatten callee _ args _
  | _, _, .cellIndex callee _ args _ => by
    have called := callee.positions_subset
    have inside := args.positions_subset
    have here := called (Expr.pos_mem_positions _)
    grind [Expr.positions, Call.positions]
  | _, _, .named object _ _ => by
    have inner := object.positions_subset
    grind [Expr.positions, Field.positions]
  | _, _, .dynamic object _ _ name _ => by
    have inner := object.positions_subset
    have inside := name.positions_subset
    grind [Expr.positions, Field.positions]
  | _, _, .lambda _ _ params _ body => by
    have declared := Param.positions_subset params
    have inner := body.positions_subset
    grind [Expr.positions]

/-- Every position in some expressions is that of a token that they are read from. -/
theorem ElementsLocated.positions_subset : ∀ {run : List Token} {exprs : List Expr},
    ElementsLocated run exprs → exprPositions exprs ⊆ run.map Token.pos
  | _, _, .nil => by simp [exprPositions]
  | _, _, .separator _ later => by
    have behind := later.positions_subset
    grind
  | _, _, .cons first later => by
    have head := first.positions_subset
    have behind := later.positions_subset
    grind [exprPositions]

end

/-- An expression is read from some tokens, and they do not end inside a run of transpose marks that
goes on behind a state. -/
structure Expr.Ended (expr : Expr) (run : List Token) (behind : State) : Prop where
  located : expr.Located run
  complete : ∀ token, behind.peek = some token → token.kind.isMark = true →
    ∀ last ∈ run.getLast?, last.kind.isMark = false

variable {expr whole left right : Expr} {run front back : List Token} {token : Token}
  {s final : State}

/-- Tokens whose last one is no mark end outside of every run of marks. -/
theorem Expr.Ended.of_last {kind : Kind} (known : token.kind = kind) (plain : kind.isMark = false)
    (located : expr.Located run) (last : run.getLast? = some token) : expr.Ended run final := by
  refine ⟨located, fun _ _ _ other inside => ?_⟩
  rw [last, Option.mem_some_iff] at inside
  rw [← inside, known, plain]

/-- A larger expression ends as its last part does. -/
theorem Expr.Ended.append (ended : right.Ended back final)
    (located : whole.Located (front ++ back)) : whole.Ended (front ++ back) final := by
  refine ⟨located, fun token known mark last inside => ?_⟩
  rw [List.getLast?_append, List.getLast?_eq_some_getLast ended.located.ne_nil,
    Option.some_or] at inside
  exact ended.complete token known mark last
    (List.getLast?_eq_some_getLast ended.located.ne_nil ▸ inside)

/-- Behind all of a run of marks no further mark follows. -/
theorem Expr.Ended.of_skip (located : expr.Located run) :
    expr.Ended run (s.skip Kind.isMark) := by
  refine ⟨located, fun token known mark => ?_⟩
  have head : (s.rest.dropWhile (·.kind.isMark)).head? = some token := known
  have stops := List.head?_dropWhile_not (fun token : Token => token.kind.isMark) s.rest
  rw [head] at stops
  simp [mark] at stops

/-- The node of an infix operator stands at its sign. A range that takes a step stands at its first
colon, where it stood before. -/
theorem Expr.Located.infixNode {operator : InfixOperator} (before : left.Located front)
    (entry : token.kind.infixOperator? = some operator) (behind : right.Located back) :
    (Expr.infixNode operator left right token.pos).Located (front ++ token :: back) := by
  obtain ⟨colon, rfl⟩ | ⟨binary, kind, rfl⟩ := Kind.infixOperator?_eq_some entry
  · change (left.rangeTo right token.pos).Located _
    unfold Expr.rangeTo
    split
    · next start stop first =>
      cases before with
      | shortRange start first stop =>
        rw [List.append_assoc, List.cons_append]
        exact .longRange start first stop colon behind
    · exact .shortRange before colon behind
  · refine .binary before ?_ behind
    rw [entry]
    rfl

/-- The node of a subscript in parentheses stands where its callee does. -/
theorem Expr.Located.apply {args : List Expr} {opens closes : Token} (callee : left.Located front)
    (opening : opens.kind = .leftParen) (inside : ElementsLocated run args)
    (closing : closes.kind = .rightParen) :
    (left.apply args).Located (front ++ (opens :: run ++ [closes])) := by
  unfold Expr.apply
  split
  · exact .flatten callee opening inside closing
  · exact .call callee opening inside closing

/-- The next token declares the parameter that is read from it. -/
theorem State.declares_of_param {param : Param} (declares : s.param? = some param) :
    ∃ token, s.peek = some token ∧ param.DeclaredBy token := by
  obtain ⟨token, known, ⟨tilde, rfl⟩ | ⟨name, rfl⟩⟩ := State.token_of_param declares
  · exact ⟨token, known, rfl, .inr ⟨tilde, rfl⟩⟩
  · exact ⟨token, known, rfl, .inl ⟨name, rfl⟩⟩

namespace Grammar

/-- A run of tokens between two states is a phrase, each node of which stands where it should. -/
def Phrase.Located (s final : State) (run : List Token) : Phrase → Prop
  | .expression _ _ whole | .operand _ whole => whole.Ended run final
  | .operators _ _ left whole | .suffix left _ whole =>
    ∀ front, left.Ended front s → whole.Ended (front ++ run) final
  | .handle _ pos whole =>
    ∀ sign : Token, sign.kind = .atSign → sign.pos = pos → whole.Ended (sign :: run) final
  | .elements close _ row rows => ∃ inside closes, run = inside ++ [closes] ∧
    closes.kind = close ∧ ElementsLocated inside (row ++ rows.flatten)
  | .arguments close args | .argumentsFrom close args => ∃ inside closes,
    run = inside ++ [closes] ∧ closes.kind = close ∧ ElementsLocated inside args
  | .parameters params => ∃ opens inside closes, run = opens :: inside ++ [closes] ∧
    opens.kind = .leftParen ∧ closes.kind = .rightParen ∧
    ∀ param ∈ params, ∃ token ∈ inside, param.DeclaredBy token
  | .parametersFrom params => ∃ inside closes, run = inside ++ [closes] ∧
    closes.kind = .rightParen ∧ ∀ param ∈ params, ∃ token ∈ inside, param.DeclaredBy token

/-- What a phrase reads between two states stands where it should. -/
def Phrase.LocatedBetween (s final : State) (phrase : Phrase) : Prop :=
  ∃ run, s.Advances run final ∧ phrase.Located s final run

namespace Phrase.LocatedBetween

variable {nesting : Nesting} {power : Nat} {middle inner name body : Expr}
  {row args : List Expr} {rows : List (List Expr)} {params : List Param} {param : Param}
  {close : Kind} {afterElement : Bool} {s₁ s₂ : State}

/-- An expression stands where its first operand and the operators behind it do. -/
theorem expression (head : LocatedBetween s s₁ (.operand nesting left))
    (tail : LocatedBetween s₁ s₂ (.operators nesting power left whole)) :
    LocatedBetween s s₂ (.expression nesting power whole) := by
  obtain ⟨front, first, left⟩ := head
  obtain ⟨back, second, whole⟩ := tail
  exact ⟨front ++ back, first.trans second, whole front left⟩

/-- Operators stand where the first of them, a postfix one, and the rest of them do. -/
theorem postfixed (head : LocatedBetween s s₁ (.suffix left token middle))
    (tail : LocatedBetween s₁ s₂ (.operators nesting power middle whole)) :
    LocatedBetween s s₂ (.operators nesting power left whole) := by
  obtain ⟨front, first, middle⟩ := head
  obtain ⟨back, second, whole⟩ := tail
  refine ⟨front ++ back, first.trans second, fun before ended => ?_⟩
  rw [← List.append_assoc]
  exact whole _ (middle before ended)

/-- Operators stand where the first of them, an infix one, its right operand and the rest do. -/
theorem infixed {operator : InfixOperator} (known : s.peek = some token)
    (entry : token.kind.infixOperator? = some operator)
    (head : LocatedBetween s.next s₁ (.expression nesting operator.rightPower right))
    (tail : LocatedBetween s₁ s₂
      (.operators nesting power (.infixNode operator left right token.pos) whole)) :
    LocatedBetween s s₂ (.operators nesting power left whole) := by
  obtain ⟨front, first, operand⟩ := head
  obtain ⟨back, second, whole⟩ := tail
  refine ⟨token :: front ++ back, (first.cons known).trans second, fun before ended => ?_⟩
  have node := ended.located.infixNode entry operand.located
  rw [← List.append_assoc]
  apply whole
  rw [List.append_cons] at node ⊢
  exact operand.append node

/-- A prefix operator stands at its sign. -/
theorem unary {operator : UnaryOperator} (known : s.peek = some token)
    (entry : token.kind.unaryOperator? = some operator)
    (head : LocatedBetween s.next s₁ (.expression nesting power inner)) :
    LocatedBetween s s₁ (.operand nesting (.unary operator inner token.pos)) := by
  obtain ⟨run, advances, operand⟩ := head
  have node := Expr.Located.unary entry operand.located
  exact ⟨token :: run, advances.cons known, @Expr.Ended.append _ _ [token] _ _ operand node⟩

/-- An expression in parentheses stands at the opening one. -/
theorem parens (known : s.peek = some token) (kind : token.kind = .leftParen)
    (closes : s₁.peekKind = some .rightParen)
    (head : LocatedBetween s.next s₁ (.expression .group 0 inner)) :
    LocatedBetween s s₁.next (.operand nesting (.parens inner token.pos)) := by
  obtain ⟨run, advances, inside⟩ := head
  obtain ⟨close, found, last⟩ := State.peek_of_peekKind closes
  exact ⟨token :: run ++ [close], (advances.concat found).cons known,
    .of_last last rfl (.parens kind inside.located last) (by simp [List.getLast?_cons])⟩

/-- A matrix stands at its opening bracket. -/
theorem matrix (known : s.peek = some token) (kind : token.kind = .leftBracket)
    (head : LocatedBetween s.next s₁ (.elements .rightBracket afterElement row rows)) :
    LocatedBetween s s₁ (.operand nesting (.matrix (Parser.rowsOf row rows) token.pos)) := by
  obtain ⟨_, advances, run, closes, rfl, closing, inside⟩ := head
  rw [← flatten_rowsOf] at inside
  exact ⟨_, advances.cons known,
    .of_last closing rfl (.matrix kind inside closing) (by simp [List.getLast?_cons])⟩

/-- A cell literal stands at its opening brace. -/
theorem cell (known : s.peek = some token) (kind : token.kind = .leftBrace)
    (head : LocatedBetween s.next s₁ (.elements .rightBrace afterElement row rows)) :
    LocatedBetween s s₁ (.operand nesting (.cell (Parser.rowsOf row rows) token.pos)) := by
  obtain ⟨_, advances, run, closes, rfl, closing, inside⟩ := head
  rw [← flatten_rowsOf] at inside
  exact ⟨_, advances.cons known,
    .of_last closing rfl (.cell kind inside closing) (by simp [List.getLast?_cons])⟩

/-- An anonymous function stands at the sign in front of its parameters. -/
theorem lambda {pos : Position} (head : LocatedBetween s s₁ (.parameters params))
    (tail : LocatedBetween s₁ s₂ (.expression nesting power body)) :
    LocatedBetween s s₂ (.handle nesting pos (.lambda params body pos)) := by
  obtain ⟨_, first, opens, inside, closes, rfl, opening, closing, params⟩ := head
  obtain ⟨run, second, body⟩ := tail
  refine ⟨_, first.trans second, fun sign kind same => ?_⟩
  subst same
  have whole := Expr.Located.lambda kind opening params closing body.located
  rw [List.append_cons] at whole
  simpa using body.append whole

/-- The end of a row is no element. -/
theorem rowEnd {kind : Kind} (known : s.peekKind = some kind)
    (breaks : kind = .semicolon ∨ kind = .newline)
    (head : LocatedBetween s.next s₁ (.elements close false row rows)) :
    LocatedBetween s s₁ (.elements close afterElement [] (Parser.rowsOf row rows)) := by
  obtain ⟨_, advances, run, closes, rfl, closing, inside⟩ := head
  obtain ⟨token, found, rfl⟩ := State.peek_of_peekKind known
  refine ⟨_, advances.cons found, token :: run, closes, rfl, closing, ?_⟩
  rw [List.nil_append, flatten_rowsOf]
  exact .separator (by obtain kind | kind := breaks <;> rw [kind] <;> rfl) inside

/-- A comma between two elements is no element. -/
theorem comma (known : s.peekKind = some .comma)
    (head : LocatedBetween s.next s₁ (.elements close false row rows)) :
    LocatedBetween s s₁ (.elements close true row rows) := by
  obtain ⟨_, advances, run, closes, rfl, closing, inside⟩ := head
  obtain ⟨token, found, kind⟩ := State.peek_of_peekKind known
  exact ⟨_, advances.cons found, token :: run, closes, rfl, closing,
    .separator (by rw [kind]; rfl) inside⟩

/-- What is left of a literal stands where its next element and the elements behind it do. -/
theorem element {first : Expr} (head : LocatedBetween s s₁ (.expression .elements 0 first))
    (tail : LocatedBetween s₁ s₂ (.elements close true row rows)) :
    LocatedBetween s s₂ (.elements close afterElement (first :: row) rows) := by
  obtain ⟨front, begins, element⟩ := head
  obtain ⟨_, ends, run, closes, rfl, closing, inside⟩ := tail
  exact ⟨_, begins.trans ends, front ++ run, closes, (List.append_assoc ..).symm, closing,
    .cons element.located inside⟩

/-- A subscript in parentheses stands where its callee does. -/
theorem call (known : s.peek = some token) (kind : token.kind = .leftParen)
    (head : LocatedBetween s.next s₁ (.arguments .rightParen args)) :
    LocatedBetween s s₁ (.suffix left token (left.apply args)) := by
  obtain ⟨_, advances, run, closes, rfl, closing, inside⟩ := head
  refine ⟨_, advances.cons known, fun front callee => ?_⟩
  have located := callee.located.apply kind inside closing
  exact .of_last closing rfl located (by simp [List.getLast?_cons])

/-- A subscript in braces stands where its object does. -/
theorem cellIndex (known : s.peek = some token) (kind : token.kind = .leftBrace)
    (head : LocatedBetween s.next s₁ (.arguments .rightBrace args)) :
    LocatedBetween s s₁ (.suffix left token (.cellIndex left args left.pos)) := by
  obtain ⟨_, advances, run, closes, rfl, closing, inside⟩ := head
  refine ⟨_, advances.cons known, fun front object => ?_⟩
  have located := Expr.Located.cellIndex object.located kind inside closing
  exact .of_last closing rfl located (by simp [List.getLast?_cons])

/-- A field that is named by an expression stands at its dot. -/
theorem dynamic (known : s.peek = some token) (kind : token.kind = .dot)
    (opens : s.next.peekKind = some .leftParen) (closes : s₁.peekKind = some .rightParen)
    (head : LocatedBetween s.next.next s₁ (.expression .group 0 name)) :
    LocatedBetween s s₁.next (.suffix left token (.member left (.dynamic name) token.pos)) := by
  obtain ⟨run, advances, inner⟩ := head
  obtain ⟨bracket, here, opening⟩ := State.peek_of_peekKind opens
  obtain ⟨close, found, closing⟩ := State.peek_of_peekKind closes
  refine ⟨_, .cons known ((advances.concat found).cons here), fun front object => ?_⟩
  exact .of_last closing rfl (.dynamic object.located kind opening inner.located closing)
    (by simp [List.getLast?_cons])

/-- A transpose stands at the first of its marks. The operand ends in no mark, since the marks in
front of it would have been taken with them. -/
theorem transpose (known : s.peek = some token) (mark : token.kind.isMark = true) :
    LocatedBetween s (s.skip Kind.isMark)
      (.suffix left token (.transpose left s.marks token.pos)) := by
  refine ⟨_, .skip s Kind.isMark, fun front operand => .of_skip ?_⟩
  have all : ∀ token ∈ s.rest.takeWhile (·.kind.isMark), token.kind.isMark = true :=
    fun token inside => List.all_eq_true.mp List.all_takeWhile token inside
  have marks : s.rest.takeWhile (·.kind.isMark) =
      token :: s.next.rest.takeWhile (·.kind.isMark) := by
    rw [State.rest_of_peek known]
    exact List.takeWhile_cons_of_pos mark
  rw [marks] at all
  rw [State.marks, marks]
  exact .transpose operand.located (operand.complete token known mark) all

/-- Arguments stand where the first of them and the ones behind its comma do. -/
theorem argument {first : Expr} (more : s₁.peekKind = some .comma)
    (head : LocatedBetween s s₁ (.expression .group 0 first))
    (tail : LocatedBetween s₁.next s₂ (.argumentsFrom close args)) :
    LocatedBetween s s₂ (.argumentsFrom close (first :: args)) := by
  obtain ⟨front, begins, argument⟩ := head
  obtain ⟨_, ends, run, closes, rfl, closing, inside⟩ := tail
  obtain ⟨comma, found, kind⟩ := State.peek_of_peekKind more
  refine ⟨_, begins.trans (ends.cons found), front ++ comma :: run, closes, by simp, closing, ?_⟩
  exact .cons argument.located (.separator (by rw [kind]; rfl) inside)

/-- The last argument stands in front of the closing bracket. -/
theorem lastArgument {last : Expr} (closes : s₁.peekKind = some close)
    (head : LocatedBetween s s₁ (.expression .group 0 last)) :
    LocatedBetween s s₁.next (.argumentsFrom close [last]) := by
  obtain ⟨run, advances, argument⟩ := head
  obtain ⟨close, found, closing⟩ := State.peek_of_peekKind closes
  refine ⟨_, advances.concat found, run, close, rfl, closing, ?_⟩
  simpa using ElementsLocated.cons argument.located .nil

/-- Each parameter is declared by a token between the parentheses. -/
theorem parameter (declares : s.param? = some param) (more : s.next.peekKind = some .comma)
    (head : LocatedBetween s.next.next s₁ (.parametersFrom params)) :
    LocatedBetween s s₁ (.parametersFrom (param :: params)) := by
  obtain ⟨_, advances, inside, closes, rfl, closing, params⟩ := head
  obtain ⟨token, known, declared⟩ := State.declares_of_param declares
  obtain ⟨comma, found, -⟩ := State.peek_of_peekKind more
  have advances := (advances.cons found).cons known
  refine ⟨_, advances, token :: comma :: inside, closes, rfl, closing, ?_⟩
  refine List.forall_mem_cons.mpr ⟨⟨token, .head _, declared⟩, fun param among => ?_⟩
  obtain ⟨other, later, declared⟩ := params param among
  exact ⟨other, .tail _ (.tail _ later), declared⟩

/-- The last parameter is declared by the token in front of the closing parenthesis. -/
theorem lastParameter (declares : s.param? = some param)
    (closes : s.next.peekKind = some .rightParen) :
    LocatedBetween s s.next.next (.parametersFrom [param]) := by
  obtain ⟨token, known, declared⟩ := State.declares_of_param declares
  obtain ⟨close, found, closing⟩ := State.peek_of_peekKind closes
  refine ⟨_, .cons known (.next found), [token], close, rfl, closing, ?_⟩
  exact List.forall_mem_singleton.mpr ⟨token, .head _, declared⟩

end Phrase.LocatedBetween

/-- What a phrase reads stands where it should. -/
theorem Reads.located {phrase : Phrase} {s final : State} (reads : Reads phrase s final) :
    phrase.LocatedBetween s final := by
  induction reads with
  | expression _ _ head tail => exact .expression head tail
  | @stop nesting power left s _ => exact ⟨[], .refl s, fun front ended => by simpa using ended⟩
  | postfixed _ _ _ _ _ _ head tail => exact .postfixed head tail
  | infixed known _ entry _ _ _ head tail => exact .infixed known entry head tail
  | @ident nesting token s known kind =>
    exact ⟨[token], .note (.next known) _, .of_last kind rfl (.ident kind) rfl⟩
  | @number nesting token s known kind =>
    exact ⟨[token], .next known, .of_last kind rfl (.number kind) rfl⟩
  | @string nesting token s known kind =>
    exact ⟨[token], .next known, .of_last kind rfl (.string kind) rfl⟩
  | @lastIndex nesting token s known kind _ _ =>
    exact ⟨[token], .next known, .of_last kind rfl (.lastIndex kind) rfl⟩
  | @colon nesting token s known kind _ =>
    exact ⟨[token], .next known, .of_last kind rfl (.colon kind) rfl⟩
  | @ignored nesting token s known kind _ =>
    exact ⟨[token], .next known, .of_last kind rfl (.ignored kind) rfl⟩
  | unary known entry _ _ head => exact .unary known entry head
  | atSign known kind _ head =>
    obtain ⟨run, advances, whole⟩ := head
    exact ⟨_, advances.cons known, whole _ kind rfl⟩
  | parens known kind _ closes head => exact .parens known kind closes head
  | matrix known kind _ head => exact .matrix known kind head
  | cell known kind _ head => exact .cell known kind head
  | lambda _ _ _ head tail => exact .lambda head tail
  | named known kind =>
    refine ⟨_, .next known, fun sign at_sign same => ?_⟩
    subst same
    exact .of_last kind rfl (.handle at_sign kind) rfl
  | close known =>
    obtain ⟨token, found, kind⟩ := State.peek_of_peekKind known
    exact ⟨[token], .next found, [], token, rfl, kind, .nil⟩
  | rowEnd known _ breaks _ head => exact .rowEnd known breaks head
  | comma known _ _ head => exact .comma known head
  | element _ _ _ _ _ head tail => exact .element head tail
  | call known kind _ head => exact .call known kind head
  | cellIndex known kind _ head => exact .cellIndex known kind head
  | member known kind named name =>
    refine ⟨_, .cons known (.next named), fun front object => ?_⟩
    exact .of_last name rfl (.named object.located kind name) (by simp)
  | dynamic known kind opens _ closes head => exact .dynamic known kind opens closes head
  | transpose known mark => exact .transpose known mark
  | noArguments closes =>
    obtain ⟨close, found, closing⟩ := State.peek_of_peekKind closes
    exact ⟨_, .next found, [], close, rfl, closing, .nil⟩
  | arguments _ _ head => exact head
  | argument _ more _ head tail => exact .argument more head tail
  | lastArgument _ closes _ head => exact .lastArgument closes head
  | noParameters opens closes =>
    obtain ⟨bracket, here, opening⟩ := State.peek_of_peekKind opens
    obtain ⟨close, found, closing⟩ := State.peek_of_peekKind closes
    exact ⟨_, .cons here (.next found), bracket, [], close, rfl, opening, closing, by simp⟩
  | parameters opens _ _ head =>
    obtain ⟨_, advances, inside, closes, rfl, closing, params⟩ := head
    obtain ⟨bracket, here, opening⟩ := State.peek_of_peekKind opens
    exact ⟨_, advances.cons here, bracket, inside, closes, rfl, opening, closing, params⟩
  | parameter declares more _ head => exact .parameter declares more head
  | lastParameter declares closes => exact .lastParameter declares closes

end Grammar

end MatlabFront
