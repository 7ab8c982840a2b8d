import MatlabFront.Precedence

/-!
# Operators of trees in the table

A tree holds operators, the table of precedence lists kinds. Each binary operator is written by one
kind and belongs to one tier, and the table lists exactly these and the colon as infix operators.
-/

namespace MatlabFront

/-- The power that a kind needs to be accepted as an operator behind an operand. -/
def Kind.leftPower? (kind : Kind) : Option Nat :=
  match kind.postfixOperator? with
  | some operator => some operator.leftPower
  | none => kind.infixOperator?.map (·.leftPower)

/-- The kind that opens the arguments of a call. -/
theorem Kind.eq_of_postfix_call {kind : Kind} (entry : kind.postfixOperator? = some .call) :
    kind = .leftParen := by
  cases kind <;> simp [Kind.postfixOperator?] at entry ⊢

/-- The kind that opens the subscript of a cell. -/
theorem Kind.eq_of_postfix_cellIndex {kind : Kind}
    (entry : kind.postfixOperator? = some .cellIndex) : kind = .leftBrace := by
  cases kind <;> simp [Kind.postfixOperator?] at entry ⊢

/-- The kind in front of a field. -/
theorem Kind.eq_of_postfix_field {kind : Kind} (entry : kind.postfixOperator? = some .field) :
    kind = .dot := by
  cases kind <;> simp [Kind.postfixOperator?] at entry ⊢

/-- The kinds of transpose marks. -/
def Kind.isMark (kind : Kind) : Bool := kind == .transpose || kind == .dotTranspose

/-- A kind that transposes is a transpose mark. -/
theorem Kind.isMark_of_postfix_transpose {kind : Kind}
    (entry : kind.postfixOperator? = some .transpose) : kind.isMark = true := by
  cases kind <;> simp [Kind.postfixOperator?, Kind.isMark] at entry ⊢

/-- A transpose mark transposes. -/
theorem Kind.postfix_of_isMark {kind : Kind} (mark : kind.isMark = true) :
    kind.postfixOperator? = some .transpose := by
  cases kind <;> simp [Kind.isMark] at mark <;> rfl

/-- An infix operator is no postfix operator. -/
theorem Kind.postfixOperator?_of_infix {kind : Kind} {operator : InfixOperator}
    (entry : kind.infixOperator? = some operator) : kind.postfixOperator? = none := by
  cases kind <;> simp [Kind.infixOperator?] at entry <;> rfl

namespace BinaryOperator

/-- The kind that writes an operator. -/
def kind : BinaryOperator → Kind
  | add => .plus
  | sub => .minus
  | mul => .star
  | div => .slash
  | leftDiv => .backslash
  | pow => .caret
  | elemMul => .dotStar
  | elemDiv => .dotSlash
  | elemLeftDiv => .dotBackslash
  | elemPow => .dotCaret
  | andAnd => .andAnd
  | orOr => .orOr
  | and => .and
  | or => .or
  | equal => .equal
  | notEqual => .notEqual
  | less => .less
  | lessEqual => .lessEqual
  | greater => .greater
  | greaterEqual => .greaterEqual

/-- The tier of an operator. -/
def tier : BinaryOperator → Tier
  | andAnd | orOr => .shortCircuit
  | equal | notEqual | less | lessEqual | greater | greaterEqual => .comparison
  | and | or => .elementWise
  | add | sub => .additive
  | mul | div | leftDiv | elemMul | elemDiv | elemLeftDiv => .multiplicative
  | pow | elemPow => .power

/-- How an operator groups with others of its tier. -/
def associativity (operator : BinaryOperator) : Associativity :=
  if operator.tier = .power then .right else .left

/-- The entry of an operator in the table. -/
def entry (operator : BinaryOperator) : InfixOperator :=
  ⟨.binary operator, operator.tier, operator.associativity⟩

/-- The table lists an operator under the kind that writes it. -/
theorem infixOperator?_kind (operator : BinaryOperator) :
    operator.kind.infixOperator? = some operator.entry := by
  cases operator <;> rfl

end BinaryOperator

/-- The entry of the colon in the table. -/
def InfixOperator.colon : InfixOperator := ⟨.range, .colon, .left⟩

/-- The infix operators of the table are the colon and the binary operators. -/
theorem Kind.infixOperator?_eq_some {kind : Kind} {operator : InfixOperator}
    (entry : kind.infixOperator? = some operator) :
    kind = .colon ∧ operator = .colon ∨
      ∃ binary : BinaryOperator, kind = binary.kind ∧ operator = binary.entry := by
  cases kind <;> simp only [Kind.infixOperator?, Option.some.injEq, reduceCtorEq] at entry <;>
    subst entry
  case colon => exact .inl ⟨rfl, rfl⟩
  all_goals exact .inr ⟨_, by rfl, rfl⟩

/-- The kind that writes a unary operator. -/
def UnaryOperator.kind : UnaryOperator → Kind
  | .plus => .plus
  | .minus => .minus
  | .not => .tilde

/-- The table lists a unary operator under the kind that writes it, and nothing else. -/
theorem Kind.unaryOperator?_eq_some_iff {kind : Kind} {operator : UnaryOperator} :
    kind.unaryOperator? = some operator ↔ kind = operator.kind := by
  cases operator <;> cases kind <;> decide

end MatlabFront
