import Mathlib.Data.List.Chain
import MatlabFront.Proofs.Expression.Complete
import MatlabFront.Proofs.Expression.Shape
import MatlabFront.Proofs.Expression.Spelling
import MatlabFront.Proofs.Expression.WellGrouped
import MatlabFront.Proofs.Parser.Advance

/-!
# Trees that are read as they are written

A tree is readable when its tokens, without gaps between them, are read as this tree, and the
operators behind it as if it had been an operand. This is what an operator needs of the operand in
front of it, which is read first, and it says enough of an operand behind an operator, of the
arguments of a subscript and of the elements of a literal.
-/

namespace MatlabFront

open Spelling

/-- Tokens without gaps between them. -/
def Tight (tokens : List Token) : Prop :=
  tokens.IsChain fun first second => first.adjacentTo second = true

variable {nesting : Nesting} {power : Nat} {s s₁ final : State} {run rest : List Token}

/-- Tokens that stand tight do so further on. -/
theorem Tight.behind (tight : Tight s.rest) (advances : s.Advances run s₁) : Tight s₁.rest := by
  unfold Tight at *
  rw [advances.rest] at tight
  exact tight.right_of_append

/-- Behind some of the tokens there is no gap. -/
theorem Tight.atGap (tight : Tight s.rest) (advances : s.Advances run s₁) (filled : run ≠ []) :
    s₁.atGap nesting = false := by
  obtain ⟨front, last, rfl⟩ : ∃ front last, run = front ++ [last] :=
    ⟨_, _, (List.dropLast_append_getLast filled).symm⟩
  have consumed : s₁.consumed = last :: (front.reverse ++ s.consumed) := by
    simpa using advances.consumed
  cases behind : s₁.rest with
  | nil => simp [State.atGap, behind, consumed, Parser.gapBeginsElement]
  | cons next later =>
    have adjacent : last.adjacentTo next = true := by
      unfold Tight at tight
      rw [advances.rest, behind, List.isChain_append] at tight
      exact tight.2.2 last (by simp) next rfl
    simp [State.atGap, behind, consumed, Parser.gapBeginsElement, adjacent]

/-- Weaker operators are not read. -/
theorem Weaker.stops (weaker : Weaker power s.rest) : s.Stops nesting power :=
  fun token known => .inr (weaker token known)

/-- Some tokens take nothing away from a tree in front of them: no operator that is open at its end
takes the next one, and no mark follows a mark. -/
structure Expr.ClosedBy (whole : Expr) (rest : List Token) : Prop where
  weaker : ∀ right ∈ whole.rightSpine, Weaker right rest
  unmarked : whole.endsInMark = true → ∀ token ∈ rest.head?, token.kind.isMark = false

/-- Where no operator follows nothing is taken away. -/
theorem Operatorless.closed (operatorless : Operatorless rest) (whole : Expr) :
    whole.ClosedBy rest where
  weaker right _ := operatorless.weaker right
  unmarked _ token head := by
    refine Bool.eq_false_iff.mpr fun mark => ?_
    have entry := Kind.leftPower?_of_postfix (Kind.postfix_of_isMark mark)
    rw [operatorless token head] at entry
    cases entry

/-- The written tokens of a tree are read as the tree, whatever operators then follow. -/
def Expr.Readable (nesting : Nesting) (whole : Expr) : Prop :=
  ∀ (power : Nat) (s : State) (run rest : List Token), whole.StandsBehind power →
    Layout.plain.Fills whole.spelling run → s.rest = run ++ rest → Tight s.rest →
    whole.ClosedBy rest →
    ∃ read s₁, read.unplaced = whole.unplaced ∧ s.Advances run s₁ ∧ run ≠ [] ∧
      ∀ result final, Grammar.Reads (.operators nesting power read result) s₁ final →
        Grammar.Reads (.expression nesting power result) s final

namespace Grammar

/-- An expression begins with a token that is no separator and closes nothing. -/
theorem Reads.begins {whole : Expr} (reads : Reads (.expression nesting power whole) s final) :
    ∃ token, s.peek = some token ∧ token.kind.isSeparator = false ∧
      token.kind.closesBracket = false := by
  cases reads with
  | expression operand _ =>
    cases operand with
    | ident known kind | number known kind | string known kind | atSign known kind
    | parens known kind | matrix known kind | cell known kind | lastIndex known kind
    | colon known kind | ignored known kind =>
      refine ⟨_, known, ?_⟩
      rw [kind]
      exact ⟨rfl, rfl⟩
    | @unary _ operator _ token _ _ known sign =>
      rw [Kind.unaryOperator?_eq_some_iff] at sign
      refine ⟨token, known, ?_⟩
      rw [sign]
      cases operator <;> exact ⟨rfl, rfl⟩

/-- An expression does not begin with a closing bracket. -/
theorem Reads.peekKind_ne {whole : Expr} {close : Kind}
    (reads : Reads (.expression nesting power whole) s final)
    (closes : close.closesBracket = true) : s.peekKind ≠ some close := by
  obtain ⟨token, known, -, other⟩ := reads.begins
  rw [State.peekKind_of_peek known]
  rintro ⟨⟩
  rw [closes] at other
  cases other

/-- The operator in front of an expression is no tilde that stands alone. -/
theorem Reads.tildeAlone {whole : Expr}
    (reads : Reads (.expression nesting power whole) s.next final) :
    s.tildeAlone nesting = false := by
  obtain ⟨token, known, plain, other⟩ := reads.begins
  have second : s.secondKind = some token.kind := State.peekKind_of_peek known
  cases nesting with
  | outside | group => rfl
  | elements =>
    have comma : token.kind ≠ .comma := fun same => by simp [same, Kind.isSeparator] at plain
    have bracket : token.kind ≠ .rightBracket := fun same => by
      simp [same, Kind.closesBracket] at other
    simp [State.tildeAlone, second, comma, bracket]

end Grammar

open Grammar

/-- A tree is read to its end in front of weaker operators. -/
theorem Expr.Readable.complete {whole : Expr} (readable : whole.Readable nesting)
    (behind : whole.StandsBehind power) (fills : Layout.plain.Fills whole.spelling run)
    (known : s.rest = run ++ rest) (tight : Tight s.rest) (closed : whole.ClosedBy rest)
    (weaker : Weaker power rest) :
    ∃ read s₁, read.unplaced = whole.unplaced ∧ s.Advances run s₁ ∧
      Reads (.expression nesting power read) s s₁ := by
  obtain ⟨read, s₁, same, advances, -, goes⟩ :=
    readable power s run rest behind fills known tight closed
  rw [← advances.rest_eq known] at weaker
  exact ⟨read, s₁, same, advances, goes read s₁ (.stop weaker.stops)⟩

/-- A tree in brackets is read in front of a token that is no operator. -/
theorem Expr.Readable.inside {whole : Expr} (readable : whole.Readable nesting)
    (fills : Layout.plain.Fills whole.spelling run) (known : s.rest = run ++ rest)
    (tight : Tight s.rest) (operatorless : Operatorless rest) :
    ∃ read s₁, read.unplaced = whole.unplaced ∧ s.Advances run s₁ ∧
      Reads (.expression nesting 0 read) s s₁ :=
  readable.complete (fun _ _ => Nat.zero_le _) fills known tight (operatorless.closed whole)
    (operatorless.weaker 0)

/-- A tree is readable when it is read as an operand. -/
theorem Expr.Readable.of_operand {whole : Expr}
    (operand : ∀ (s : State) (run rest : List Token), Layout.plain.Fills whole.spelling run →
      s.rest = run ++ rest → Tight s.rest → whole.ClosedBy rest →
      ∃ read s₁, read.unplaced = whole.unplaced ∧ s.Advances run s₁ ∧ run ≠ [] ∧
        Reads (.operand nesting read) s s₁) : whole.Readable nesting := by
  intro power s run rest _ fills known tight closed
  obtain ⟨read, s₁, same, advances, filled, reads⟩ := operand s run rest fills known tight closed
  exact ⟨read, s₁, same, advances, filled, fun result final later => .expression reads later⟩

/-- A tree is readable when what is behind its object is read as a postfix operator. -/
theorem Expr.Readable.of_suffix {object whole : Expr} {operator : PostfixOperator}
    {items : List Item} (readable : object.Readable nesting)
    (spelling : whole.spelling = object.spelling ++ items)
    (spine : whole.leftSpine = operator.leftPower :: object.leftSpine)
    (before : object.StandsBefore operator.leftPower)
    (unmarked : operator = .transpose → object.endsInMark = false)
    (begins : ∀ run, Layout.plain.Fills items run →
      ∃ token later, run = token :: later ∧ token.kind.postfixOperator? = some operator)
    (suffix : ∀ (s : State) (token : Token) (run rest : List Token) (front : Expr),
      Layout.plain.Fills items run → s.rest = run ++ rest → s.peek = some token → Tight s.rest →
      whole.ClosedBy rest → front.unplaced = object.unplaced →
      ∃ read s₁, read.unplaced = whole.unplaced ∧ s.Advances run s₁ ∧
        Reads (.suffix front token read) s s₁) : whole.Readable nesting := by
  intro power s run rest behind fills known tight closed
  rw [Expr.StandsBehind, spine, List.forall_mem_cons] at behind
  obtain ⟨strong, behind⟩ := behind
  rw [spelling] at fills
  obtain ⟨head, tail, rfl, first, second⟩ := fills.split
  obtain ⟨token, later, rfl, entry⟩ := begins tail second
  rw [List.append_assoc] at known
  have here : object.ClosedBy (token :: later ++ rest) := by
    refine ⟨fun right inside => ?_, fun marked => ?_⟩
    · rintro _ ⟨⟩ left power
      rw [Kind.leftPower?_of_postfix entry] at power
      obtain rfl := Option.some.inj power
      exact before right inside
    · rintro _ ⟨⟩
      refine Bool.eq_false_iff.mpr fun mark => ?_
      have same := (Kind.postfix_of_isMark mark).symm.trans entry
      rw [unmarked (Option.some.inj same).symm] at marked
      cases marked
  obtain ⟨front, s₁, same, advances, filled, goes⟩ :=
    readable power s head _ behind first known tight here
  have left := advances.rest_eq known
  have peek : s₁.peek = some token := (State.peek_of_rest left).1
  obtain ⟨read, s₂, equal, more, reads⟩ :=
    suffix s₁ token _ rest front second left peek (tight.behind advances) closed same
  refine ⟨read, s₂, equal, advances.trans more, by simp, fun result final operators => ?_⟩
  exact goes result final
    (.postfixed peek (tight.atGap advances filled) entry strong reads operators)

/-- An infix operator that a tree can stand in front of takes nothing away from it. -/
theorem Expr.StandsBefore.closed {left : Expr} {operator : InfixOperator} {sign : Token}
    (before : left.StandsBefore operator.leftPower)
    (entry : sign.kind.infixOperator? = some operator) : left.ClosedBy (sign :: rest) where
  weaker right inside := by
    rintro _ ⟨⟩ power listed
    rw [Kind.leftPower?_of_infix entry] at listed
    obtain rfl := Option.some.inj listed
    exact before right inside
  unmarked _ := by
    rintro _ ⟨⟩
    refine Bool.eq_false_iff.mpr fun mark => ?_
    have postfixed := Kind.postfix_of_isMark mark
    rw [Kind.postfixOperator?_of_infix entry] at postfixed
    cases postfixed

/-- An infix operator and its right operand are read behind a left operand. -/
theorem infix_read {right : Expr} {operator : InfixOperator} {sign : Token}
    (readable : right.Readable nesting) (behind : right.StandsBehind operator.rightPower)
    (fills : Layout.plain.Fills right.spelling run) (known : s.rest = sign :: (run ++ rest))
    (tight : Tight s.rest) (gap : s.atGap nesting = false)
    (entry : sign.kind.infixOperator? = some operator) (strong : power ≤ operator.leftPower)
    (closed : right.ClosedBy rest) (weaker : Weaker operator.rightPower rest) :
    ∃ read s₁, read.unplaced = right.unplaced ∧ s.Advances (sign :: run) s₁ ∧
      ∀ left result final,
        Reads (.operators nesting power (.infixNode operator left read sign.pos) result) s₁ final →
        Reads (.operators nesting power left result) s final := by
  obtain ⟨here, next⟩ := State.peek_of_rest known
  have later := tight.behind (.next here)
  obtain ⟨read, s₁, same, advances, reads⟩ :=
    readable.complete behind fills next later closed weaker
  exact ⟨read, s₁, same, advances.cons here, fun left result final operators =>
    .infixed here gap entry strong reads operators⟩

/-- Two operands and the infix operator between them are read, and the operators behind them go on
from its node. -/
theorem Expr.Readable.infixed {left right : Expr} {operator : InfixOperator} {kind : Kind}
    (first : left.Readable nesting) (second : right.Readable nesting)
    (before : left.StandsBefore operator.leftPower)
    (behind : right.StandsBehind operator.rightPower)
    (entry : kind.infixOperator? = some operator) (strong : power ≤ operator.leftPower)
    (spine : left.StandsBehind power)
    (fills : Layout.plain.Fills (left.spelling ++ .kind kind :: right.spelling) run)
    (known : s.rest = run ++ rest) (tight : Tight s.rest) (closed : right.ClosedBy rest)
    (weaker : Weaker operator.rightPower rest) :
    ∃ front back pos s₁, front.unplaced = left.unplaced ∧ back.unplaced = right.unplaced ∧
      s.Advances run s₁ ∧ run ≠ [] ∧ ∀ result final,
        Reads (.operators nesting power (.infixNode operator front back pos) result) s₁ final →
        Reads (.expression nesting power result) s final := by
  obtain ⟨head, tail, rfl, written, more⟩ := fills.split
  obtain ⟨sign, later, rfl, rfl, content⟩ := Layout.Fills.uncons_kind more
  rw [List.append_assoc] at known
  obtain ⟨front, s₁, same, advances, filled, goes⟩ :=
    first power s head _ spine written known tight (before.closed entry)
  obtain ⟨back, s₂, equal, moves, continues⟩ :=
    infix_read second behind content (advances.rest_eq known) (tight.behind advances)
      (tight.atGap advances filled) entry strong closed weaker
  exact ⟨front, back, sign.pos, s₂, same, equal, advances.trans moves, by simp,
    fun result final later => goes result final (continues front result final later)⟩

/-- A postfix operator of one kind begins with a token of this kind. -/
theorem begins_of_kind {kind : Kind} {operator : PostfixOperator} {items : List Item}
    (entry : kind.postfixOperator? = some operator) (run : List Token)
    (fills : Layout.plain.Fills (.kind kind :: items) run) :
    ∃ token later, run = token :: later ∧ token.kind.postfixOperator? = some operator := by
  obtain ⟨token, later, rfl, same, -⟩ := Layout.Fills.uncons_kind fills
  exact ⟨token, later, rfl, same ▸ entry⟩

/-- A parameter is written by a name or by a tilde. -/
theorem param_read {param : Param} {token : Token}
    (written : Item.WrittenBy token (.word param.name))
    (known : s.peek = some token) :
    ∃ read, s.param? = some read ∧ read.unplaced = param.unplaced ∧ token.kind ≠ .rightParen := by
  obtain ⟨kind, name⟩ | ⟨kind, name⟩ := written
  · exact ⟨⟨token.text, token.pos⟩, by simp [State.param?, known, kind],
      by simp [name], by simp [kind]⟩
  · exact ⟨⟨"~", token.pos⟩, by simp [State.param?, known, kind],
      by simp [name], by simp [kind]⟩

/-- One parameter and more are read up to the closing parenthesis. -/
theorem parametersFrom_read {param : Param} {params : List Param} {closing : Token}
    (fills : Layout.plain.Fills
      (param.spelling ++ (params.map Param.spelling).flatMap (.kind .comma :: ·)) run)
    (closes : closing.kind = .rightParen) (known : s.rest = run ++ closing :: rest) :
    ∃ read s₁, read.map Param.unplaced = (param :: params).map Param.unplaced ∧
      s.Advances (run ++ [closing]) s₁ ∧ s.peekKind ≠ some .rightParen ∧
        Reads (.parametersFrom read) s s₁ := by
  induction params generalizing s param run with
  | nil =>
    obtain ⟨word, tail, rfl, first, second⟩ := fills.split
    cases second
    cases first with
    | token written done =>
      cases done
      obtain ⟨here, next⟩ := State.peek_of_rest known
      obtain ⟨there, -⟩ := State.peek_of_rest next
      obtain ⟨read, declares, same, other⟩ := param_read written here
      refine ⟨[read], s.next.next, congrArg ([·]) same, .cons here (.next there), ?_, ?_⟩
      · rw [State.peekKind_of_peek here]
        exact fun kind => other (Option.some.inj kind)
      · exact .lastParameter declares (closes ▸ State.peekKind_of_peek there)
  | cons more params ih =>
    obtain ⟨word, tail, rfl, first, second⟩ := fills.split
    cases first with
    | token written done =>
      cases done
      obtain ⟨comma, later, rfl, kind, fills⟩ := Layout.Fills.uncons_kind second
      obtain ⟨here, next⟩ := State.peek_of_rest known
      obtain ⟨there, behind⟩ := State.peek_of_rest next
      obtain ⟨read, declares, same, other⟩ := param_read written here
      obtain ⟨reads, s₁, equal, advances, -, list⟩ := ih fills behind
      refine ⟨read :: reads, s₁, ?_, .cons here (.cons there advances), ?_, ?_⟩
      · exact congrArg₂ List.cons same equal
      · rw [State.peekKind_of_peek here]
        exact fun kind => other (Option.some.inj kind)
      · exact .parameter declares (kind ▸ State.peekKind_of_peek there) list

/-- A list of parameters is read with its parentheses. -/
theorem parameters_read {params : List Param} {opening closing : Token}
    (fills : Layout.plain.Fills (listSpelling (.kind .comma) (params.map Param.spelling)) run)
    (opens : opening.kind = .leftParen) (closes : closing.kind = .rightParen)
    (known : s.rest = opening :: (run ++ closing :: rest)) :
    ∃ read s₁, read.map Param.unplaced = params.map Param.unplaced ∧
      s.Advances (opening :: (run ++ [closing])) s₁ ∧ Reads (.parameters read) s s₁ := by
  obtain ⟨here, next⟩ := State.peek_of_rest known
  have opened : s.peekKind = some .leftParen := opens ▸ State.peekKind_of_peek here
  cases params with
  | nil =>
    cases fills
    obtain ⟨there, -⟩ := State.peek_of_rest next
    exact ⟨[], s.next.next, rfl, .cons here (.next there),
      .noParameters opened (closes ▸ State.peekKind_of_peek there)⟩
  | cons param params =>
    rw [List.map_cons, listSpelling_cons] at fills
    obtain ⟨read, s₁, same, advances, other, reads⟩ := parametersFrom_read fills closes next
    exact ⟨read, s₁, same, advances.cons here, .parameters opened other reads⟩

/-- An argument is read in front of a comma or the closing bracket. A bare colon is one. -/
theorem argument_read {arg : Expr} {token : Token}
    (readable : arg.isColon = false → arg.Readable .group)
    (fills : Layout.plain.Fills arg.spelling run)
    (kind : token.kind = .comma ∨ token.kind = .rightParen ∨ token.kind = .rightBrace)
    (known : s.rest = run ++ token :: rest) (tight : Tight s.rest) :
    ∃ read s₁, read.unplaced = arg.unplaced ∧ s.Advances run s₁ ∧
      Reads (.expression .group 0 read) s s₁ := by
  have operatorless : Operatorless (token :: rest) := by
    refine operatorless_cons ?_
    obtain kind | kind | kind := kind <;> rw [kind] <;> rfl
  cases bare : arg.isColon with
  | false => exact (readable bare).inside fills known tight operatorless
  | true =>
    obtain ⟨pos, rfl⟩ := Expr.eq_colon_of_isColon bare
    obtain ⟨colon, later, rfl, same, done⟩ := Layout.Fills.uncons_kind fills
    cases done
    obtain ⟨here, next⟩ := State.peek_of_rest known
    obtain ⟨there, -⟩ := State.peek_of_rest next
    have second : s.secondKind = some token.kind := State.peekKind_of_peek there
    have alone : s.colonAlone .group = true := by
      obtain kind | kind | kind := kind <;> simp [State.colonAlone, second, kind]
    have left : s.next.rest = token :: rest := next
    rw [← left] at operatorless
    exact ⟨.colon colon.pos, s.next, rfl, .next here,
      .expression (.colon here same alone) (.stop (operatorless.weaker 0).stops)⟩

/-- One argument and more are read up to the closing bracket. -/
theorem argumentsFrom_read {arg : Expr} {args : List Expr} {closing : Token}
    (readable : ∀ each ∈ arg :: args, each.isColon = false → each.Readable .group)
    (fills : Layout.plain.Fills (arg.spelling ++ (spellings args).flatMap (.kind .comma :: ·)) run)
    (closes : closing.kind = .rightParen ∨ closing.kind = .rightBrace)
    (known : s.rest = run ++ closing :: rest) (tight : Tight s.rest) :
    ∃ read s₁, unplacedAll read = unplacedAll (arg :: args) ∧ s.Advances (run ++ [closing]) s₁ ∧
      s.peekKind ≠ some closing.kind ∧ Reads (.argumentsFrom closing.kind read) s s₁ := by
  induction args generalizing s arg run with
  | nil =>
    rw [spellings, List.flatMap_nil, List.append_nil] at fills
    obtain ⟨read, s₁, same, advances, reads⟩ :=
      argument_read (readable arg List.mem_cons_self) fills (.inr closes) known tight
    obtain ⟨there, -⟩ := State.peek_of_rest (advances.rest_eq known)
    refine ⟨[read], s₁.next, by simp [same], advances.concat there, ?_, ?_⟩
    · exact reads.peekKind_ne (by obtain kind | kind := closes <;> rw [kind] <;> rfl)
    · refine .lastArgument reads (State.peekKind_of_peek there) ?_
      obtain kind | kind := closes <;> simp [kind]
  | cons more args ih =>
    obtain ⟨head, tail, rfl, first, second⟩ := fills.split
    rw [spellings, List.flatMap_cons] at second
    obtain ⟨comma, later, rfl, kind, more⟩ := Layout.Fills.uncons_kind second
    have known : s.rest = head ++ comma :: (later ++ closing :: rest) := by simpa using known
    obtain ⟨read, s₁, same, advances, head⟩ :=
      argument_read (readable arg List.mem_cons_self) first (.inl kind) known tight
    have left := advances.rest_eq known
    obtain ⟨there, behind⟩ := State.peek_of_rest left
    have advances := advances.concat there
    obtain ⟨reads, s₂, equal, moves, -, list⟩ :=
      ih (fun each inside => readable each (List.mem_cons_of_mem _ inside)) more behind
        (tight.behind advances)
    refine ⟨read :: reads, s₂, ?_, by simpa using advances.trans moves, ?_, ?_⟩
    · exact congrArg₂ List.cons same equal
    · exact head.peekKind_ne (by obtain kind | kind := closes <;> rw [kind] <;> rfl)
    · exact .argument head (kind ▸ State.peekKind_of_peek there) list

/-- A list of arguments is read with its closing bracket. -/
theorem arguments_read {args : List Expr} {closing : Token}
    (readable : ∀ arg ∈ args, arg.isColon = false → arg.Readable .group)
    (fills : Layout.plain.Fills (listSpelling (.kind .comma) (spellings args)) run)
    (closes : closing.kind = .rightParen ∨ closing.kind = .rightBrace)
    (known : s.rest = run ++ closing :: rest) (tight : Tight s.rest) :
    ∃ read s₁, unplacedAll read = unplacedAll args ∧ s.Advances (run ++ [closing]) s₁ ∧
      Reads (.arguments closing.kind read) s s₁ := by
  cases args with
  | nil =>
    cases fills
    obtain ⟨here, -⟩ := State.peek_of_rest known
    exact ⟨[], s.next, rfl, .next here, .noArguments (State.peekKind_of_peek here)⟩
  | cons arg args =>
    rw [spellings, listSpelling_cons] at fills
    obtain ⟨read, s₁, same, advances, other, reads⟩ :=
      argumentsFrom_read readable fills closes known tight
    exact ⟨read, s₁, same, advances, .arguments other reads⟩

/-- A row is read in front of a semicolon or the closing bracket, and what is behind it goes on. -/
theorem row_read {close : Kind} {element : Expr} {row : List Expr}
    (readable : ∀ each ∈ element :: row, each.Readable .elements)
    (fills : Layout.plain.Fills (element.spelling ++ (spellings row).flatMap (.between :: ·)) run)
    (closes : close.closesBracket = true) (operatorless : Operatorless rest)
    (known : s.rest = run ++ rest) (tight : Tight s.rest) :
    ∃ first read s₁, unplacedAll (first :: read) = unplacedAll (element :: row) ∧
      s.Advances run s₁ ∧ ∀ rows final afterElement,
        Reads (.elements close true [] rows) s₁ final →
        Reads (.elements close afterElement (first :: read) rows) s final := by
  induction row generalizing s element run with
  | nil =>
    rw [spellings, List.flatMap_nil, List.append_nil] at fills
    obtain ⟨read, s₁, same, advances, reads⟩ :=
      (readable element List.mem_cons_self).inside fills known tight operatorless
    refine ⟨read, [], s₁, by simp [same], advances, fun rows final after later => ?_⟩
    obtain ⟨token, here, plain, -⟩ := reads.begins
    have other := reads.peekKind_ne closes
    rw [State.peekKind_of_peek here] at other
    exact .element (State.peekKind_of_peek here) (fun same => other (congrArg some same)) plain
      reads later
  | cons more row ih =>
    obtain ⟨head, tail, rfl, first, second⟩ := fills.split
    rw [spellings, List.flatMap_cons] at second
    obtain ⟨gap, later, rfl, ⟨comma, rfl, kind⟩, more⟩ := Layout.fills_between_iff.mp second
    have known : s.rest = head ++ comma :: (later ++ rest) := by simpa using known
    obtain ⟨read, s₁, same, advances, reads⟩ :=
      (readable element List.mem_cons_self).inside first known tight
        (operatorless_cons (by rw [kind]; rfl))
    obtain ⟨there, behind⟩ := State.peek_of_rest (advances.rest_eq known)
    have advances := advances.concat there
    obtain ⟨next, list, s₂, equal, moves, goes⟩ :=
      ih (fun each inside => readable each (List.mem_cons_of_mem _ inside)) more behind
        (tight.behind advances)
    refine ⟨read, next :: list, s₂, ?_, by simpa using advances.trans moves, ?_⟩
    · exact congrArg₂ List.cons same equal
    intro rows final after later
    obtain ⟨token, here, plain, -⟩ := reads.begins
    have other := reads.peekKind_ne closes
    rw [State.peekKind_of_peek here] at other
    refine .element (State.peekKind_of_peek here) (fun same => other (congrArg some same)) plain
      reads (.comma (kind ▸ State.peekKind_of_peek there) ?_ (goes rows final false later))
    rintro rfl
    cases closes

/-- A closing bracket is no operator. -/
theorem leftPower?_of_closesBracket {kind : Kind} (closes : kind.closesBracket = true) :
    kind.leftPower? = none := by
  cases kind <;> first | rfl | cases closes

/-- One row and more are read up to the closing bracket. -/
theorem rows_read {row : List Expr} {rows : List (List Expr)} {closing : Token}
    (filled : ∀ each ∈ row :: rows, each ≠ [])
    (readable : ∀ each ∈ row :: rows, ∀ element ∈ each, element.Readable .elements)
    (fills : Layout.plain.Fills
      (listSpelling .between (spellings row) ++ (rowSpellings rows).flatMap (.rowBreak :: ·)) run)
    (closes : closing.kind.closesBracket = true) (known : s.rest = run ++ closing :: rest)
    (tight : Tight s.rest) (afterElement : Bool) :
    ∃ first read s₁, unplacedRows (Parser.rowsOf first read) = unplacedRows (row :: rows) ∧
      s.Advances (run ++ [closing]) s₁ ∧
        Reads (.elements closing.kind afterElement first read) s s₁ := by
  induction rows generalizing s row run afterElement with
  | nil =>
    obtain ⟨element, row, rfl⟩ := List.exists_cons_of_ne_nil (filled row List.mem_cons_self)
    rw [rowSpellings, List.flatMap_nil, List.append_nil, spellings, listSpelling_cons] at fills
    obtain ⟨first, read, s₁, same, advances, goes⟩ := row_read (readable _ List.mem_cons_self)
      fills closes (operatorless_cons (leftPower?_of_closesBracket closes)) known tight
    obtain ⟨there, -⟩ := State.peek_of_rest (advances.rest_eq known)
    refine ⟨first :: read, [], s₁.next, ?_, advances.concat there,
      goes [] s₁.next afterElement (.close (State.peekKind_of_peek there))⟩
    exact congrArg ([·]) same
  | cons next rows ih =>
    obtain ⟨element, row, rfl⟩ := List.exists_cons_of_ne_nil (filled row List.mem_cons_self)
    obtain ⟨head, tail, rfl, first, second⟩ := fills.split
    rw [spellings, listSpelling_cons] at first
    rw [rowSpellings, List.flatMap_cons] at second
    obtain ⟨gap, later, rfl, ⟨semicolon, rfl, kind⟩, more⟩ := Layout.fills_rowBreak_iff.mp second
    have known : s.rest = head ++ semicolon :: (later ++ closing :: rest) := by simpa using known
    obtain ⟨first, read, s₁, same, advances, goes⟩ := row_read (readable _ List.mem_cons_self)
      first closes (operatorless_cons (by rw [kind]; rfl)) known tight
    obtain ⟨there, behind⟩ := State.peek_of_rest (advances.rest_eq known)
    have advances := advances.concat there
    obtain ⟨list, lists, s₂, equal, moves, reads⟩ :=
      ih (fun each inside => filled each (List.mem_cons_of_mem _ inside))
        (fun each inside => readable each (List.mem_cons_of_mem _ inside)) more behind
        (tight.behind advances) false
    have other : semicolon.kind ≠ closing.kind := by
      intro equal
      rw [← equal, kind] at closes
      cases closes
    refine ⟨first :: read, Parser.rowsOf list lists, s₂, ?_, by simpa using advances.trans moves,
      goes _ s₂ afterElement (.rowEnd (State.peekKind_of_peek there) other (.inl kind) reads)⟩
    exact congrArg₂ List.cons same equal

/-- A literal is read behind its opening bracket. -/
theorem elements_read {rows : List (List Expr)} {closing : Token}
    (filled : ∀ row ∈ rows, row ≠ [])
    (readable : ∀ row ∈ rows, ∀ element ∈ row, element.Readable .elements)
    (whole : Layout.plain.Fills
      (.edge :: listSpelling .rowBreak (rowSpellings rows) ++ [.edge]) run)
    (closes : closing.kind.closesBracket = true) (known : s.rest = run ++ closing :: rest)
    (tight : Tight s.rest) :
    ∃ first read s₁, unplacedRows (Parser.rowsOf first read) = unplacedRows rows ∧
      s.Advances (run ++ [closing]) s₁ ∧
        Reads (.elements closing.kind false first read) s s₁ := by
  obtain ⟨gap, later, rfl, rfl, written⟩ := Layout.fills_edge_iff.mp whole
  obtain ⟨inner, edge, rfl, fills, last⟩ := written.split
  obtain ⟨gap, behind, rfl, rfl, done⟩ := Layout.fills_edge_iff.mp last
  cases done
  simp only [List.nil_append, List.append_nil] at known ⊢
  cases rows with
  | nil =>
    cases fills
    obtain ⟨here, -⟩ := State.peek_of_rest known
    exact ⟨[], [], s.next, rfl, .next here, .close (State.peekKind_of_peek here)⟩
  | cons row rows =>
    rw [rowSpellings, listSpelling_cons] at fills
    exact rows_read filled readable fills closes known tight false

/-- A literal is read with both of its brackets. -/
theorem literal_read {rows : List (List Expr)} {opens closes : Kind}
    (filled : ∀ row ∈ rows, row ≠ [])
    (readable : ∀ row ∈ rows, ∀ element ∈ row, element.Readable .elements)
    (fills : Layout.plain.Fills (.kind opens :: .edge ::
      listSpelling .rowBreak (rowSpellings rows) ++ [.edge, .kind closes]) run)
    (ends : closes.closesBracket = true) (known : s.rest = run ++ rest) (tight : Tight s.rest) :
    ∃ opening first read s₁, s.peek = some opening ∧ opening.kind = opens ∧
      unplacedRows (Parser.rowsOf first read) = unplacedRows rows ∧ s.Advances run s₁ ∧ run ≠ [] ∧
        Reads (.elements closes false first read) s.next s₁ := by
  obtain ⟨opening, later, rfl, kind, behind⟩ := Layout.Fills.uncons_kind fills
  have behind : Layout.plain.Fills ((.edge :: listSpelling .rowBreak (rowSpellings rows) ++
    [.edge]) ++ [.kind closes]) later := by simpa using behind
  obtain ⟨run, tail, rfl, content, last⟩ := behind.split
  obtain ⟨closing, nothing, rfl, rfl, done⟩ := Layout.Fills.uncons_kind last
  cases done
  have known : s.rest = opening :: (run ++ closing :: rest) := by simpa using known
  obtain ⟨here, next⟩ := State.peek_of_rest known
  obtain ⟨first, read, s₁, same, advances, reads⟩ :=
    elements_read filled readable content ends next (tight.behind (.next here))
  exact ⟨opening, first, read, s₁, here, kind, same, advances.cons here, by simp, reads⟩

/-- A colon behind anything but a range of two operands makes a range of two operands. -/
theorem Expr.rangeTo_of_long {left right : Expr} {pos : Position}
    (long : left.isShortRange = false) : left.rangeTo right pos = .range left none right pos := by
  unfold Expr.rangeTo
  split
  · cases long
  · rfl

/-- Trees that are the same apart from positions are ranges of two operands or not together. -/
theorem Expr.isShortRange_congr {read whole : Expr} (same : read.unplaced = whole.unplaced) :
    read.isShortRange = whole.isShortRange :=
  calc read.isShortRange
    _ = read.unplaced.isShortRange := (read.isShortRange_relocate .forget).symm
    _ = whole.unplaced.isShortRange := by rw [same]
    _ = whole.isShortRange := whole.isShortRange_relocate .forget

/-- A tree in brackets is read with its brackets. -/
theorem Expr.Readable.enclosed {inner : Expr} {closing : Token} (readable : inner.Readable .group)
    (fills : Layout.plain.Fills inner.spelling run) (closes : closing.kind = .rightParen)
    (known : s.rest = run ++ closing :: rest) (tight : Tight s.rest) :
    ∃ read s₁, read.unplaced = inner.unplaced ∧ s.Advances (run ++ [closing]) s₁.next ∧
      Reads (.expression .group 0 read) s s₁ ∧ s₁.peekKind = some .rightParen := by
  obtain ⟨read, s₁, same, advances, reads⟩ :=
    readable.inside fills known tight (operatorless_cons (by rw [closes]; rfl))
  obtain ⟨there, -⟩ := State.peek_of_rest (advances.rest_eq known)
  exact ⟨read, s₁, same, advances.concat there, reads, closes ▸ State.peekKind_of_peek there⟩

/-- What follows an operator of a tree takes nothing away from the operand at its end. -/
theorem Expr.ClosedBy.operand {whole operand : Expr} {power : Nat} (closed : whole.ClosedBy rest)
    (spine : whole.rightSpine = power :: operand.rightSpine)
    (mark : whole.endsInMark = operand.endsInMark) : operand.ClosedBy rest ∧ Weaker power rest := by
  obtain ⟨weaker, unmarked⟩ := closed
  rw [spine, List.forall_mem_cons] at weaker
  exact ⟨⟨weaker.2, mark ▸ unmarked⟩, weaker.1⟩

/-- Arguments that are a lone bare colon apart from positions are one. -/
theorem eq_colon_of_unplacedAll {args : List Expr} {colon : Position}
    (same : unplacedAll args = unplacedAll [.colon colon]) : ∃ pos, args = [.colon pos] := by
  cases args with
  | nil => cases same
  | cons arg args =>
    obtain ⟨head, tail⟩ := List.cons_eq_cons.mp same
    cases args with
    | cons => cases tail
    | nil =>
      have bare : arg.isColon = true :=
        (arg.isColon_relocate .forget).symm.trans (congrArg Expr.isColon head)
      obtain ⟨pos, rfl⟩ := Expr.eq_colon_of_isColon bare
      exact ⟨pos, rfl⟩

/-- Arguments are read with both of their brackets. -/
theorem bracketed_read {args : List Expr} {token : Token} {opens closes : Kind}
    (readable : ∀ arg ∈ args, arg.isColon = false → arg.Readable .group)
    (fills : Layout.plain.Fills
      (.kind opens :: (listSpelling (.kind .comma) (spellings args) ++ [.kind closes])) run)
    (ends : closes = .rightParen ∨ closes = .rightBrace) (known : s.rest = run ++ rest)
    (here : s.peek = some token) (tight : Tight s.rest) :
    ∃ read s₁, unplacedAll read = unplacedAll args ∧ s.Advances run s₁ ∧ token.kind = opens ∧
      Reads (.arguments closes read) s.next s₁ := by
  obtain ⟨opening, later, rfl, kind, behind⟩ := Layout.Fills.uncons_kind fills
  obtain ⟨run, tail, rfl, content, last⟩ := behind.split
  obtain ⟨closing, nothing, rfl, rfl, done⟩ := Layout.Fills.uncons_kind last
  cases done
  have known : s.rest = opening :: (run ++ closing :: rest) := by simpa using known
  obtain ⟨there, next⟩ := State.peek_of_rest known
  obtain rfl : token = opening := Option.some.inj (here.symm.trans there)
  obtain ⟨read, s₁, same, advances, reads⟩ :=
    arguments_read readable content ends next (tight.behind (.next here))
  exact ⟨read, s₁, same, advances.cons here, kind, reads⟩

end MatlabFront
