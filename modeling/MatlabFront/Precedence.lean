import MatlabFront.Operator
import MatlabFront.Token

/-!
# Precedence of operators

The tiers run from the loosest to the tightest binding. Each has a binding power, and an infix
operator has two: it is accepted where operators of at least its left power are, and its right
operand accepts operators of at least its right power. An operator that associates to the left has
the larger power on the right, so that its own tier does not continue the right operand.
-/

namespace MatlabFront

/-- The precedence tiers, the loosest first. -/
inductive Tier where
  | handle
  | comma
  | colon
  | shortCircuit
  | comparison
  | elementWise
  | additive
  | multiplicative
  | unary
  | transpose
  | power
  | bracket
  | field
  deriving DecidableEq

/-- How operators of one tier group. -/
inductive Associativity where
  | left
  | right
  | none
  deriving DecidableEq

namespace Tier

/-- Every tier, the loosest first. -/
def all : List Tier :=
  [handle, comma, colon, shortCircuit, comparison, elementWise, additive, multiplicative, unary,
    transpose, power, bracket, field]

/-- The place of a tier in the order, from zero. -/
def rank : Tier → Nat
  | handle => 0
  | comma => 1
  | colon => 2
  | shortCircuit => 3
  | comparison => 4
  | elementWise => 5
  | additive => 6
  | multiplicative => 7
  | unary => 8
  | transpose => 9
  | power => 10
  | bracket => 11
  | field => 12

/-- The name of a tier in records. -/
def name : Tier → String
  | handle => "Handle"
  | comma => "Comma"
  | colon => "Colon"
  | shortCircuit => "ShortCircuit"
  | comparison => "Comparison"
  | elementWise => "ElementWise"
  | additive => "Additive"
  | multiplicative => "Multiplicative"
  | unary => "Unary"
  | transpose => "Transpose"
  | power => "Power"
  | bracket => "Bracket"
  | field => "Field"

/-- The tier of a name. -/
def ofName? (name : String) : Option Tier := all.find? (·.name == name)

/-- The least binding power at which an operator of a tier is still accepted. Powers are ten apart,
which leaves room between the tiers for the right powers. -/
def bindingPower (tier : Tier) : Nat := (tier.rank + 1) * 10

/-- The binding powers of an infix operator on its left and on its right. -/
def infixPowers (tier : Tier) : Associativity → Nat × Nat
  | .left | .none => (tier.bindingPower, tier.bindingPower + 1)
  | .right => (tier.bindingPower, tier.bindingPower)

/-- The order of two tiers by how tightly they bind. -/
def compare (tier other : Tier) : Ordering := Ord.compare tier.rank other.rank

end Tier

/-- What an infix token builds from its two operands. -/
inductive InfixAction where
  | binary (operator : BinaryOperator)
  | range
  deriving DecidableEq

/-- An entry of the table of infix operators. -/
structure InfixOperator where
  action : InfixAction
  tier : Tier
  associativity : Associativity
  deriving DecidableEq

namespace InfixOperator

/-- The power that an operator needs to be accepted after its left operand. -/
def leftPower (operator : InfixOperator) : Nat :=
  (operator.tier.infixPowers operator.associativity).1

/-- The least power of the operators in its right operand. -/
def rightPower (operator : InfixOperator) : Nat :=
  (operator.tier.infixPowers operator.associativity).2

end InfixOperator

/-- What a postfix token does to the operand before it. -/
inductive PostfixOperator where
  | call
  | cellIndex
  | field
  | transpose
  deriving DecidableEq

/-- The power that a postfix operator needs to be accepted. -/
def PostfixOperator.leftPower : PostfixOperator → Nat
  | .call | .cellIndex => Tier.bracket.bindingPower
  | .field => Tier.field.bindingPower
  | .transpose => Tier.transpose.bindingPower

namespace Kind

/-- The infix operator of a kind. -/
def infixOperator? : Kind → Option InfixOperator
  | colon => some ⟨.range, .colon, .left⟩
  | andAnd => some ⟨.binary .andAnd, .shortCircuit, .left⟩
  | orOr => some ⟨.binary .orOr, .shortCircuit, .left⟩
  | equal => some ⟨.binary .equal, .comparison, .left⟩
  | notEqual => some ⟨.binary .notEqual, .comparison, .left⟩
  | less => some ⟨.binary .less, .comparison, .left⟩
  | lessEqual => some ⟨.binary .lessEqual, .comparison, .left⟩
  | greater => some ⟨.binary .greater, .comparison, .left⟩
  | greaterEqual => some ⟨.binary .greaterEqual, .comparison, .left⟩
  | and => some ⟨.binary .and, .elementWise, .left⟩
  | or => some ⟨.binary .or, .elementWise, .left⟩
  | plus => some ⟨.binary .add, .additive, .left⟩
  | minus => some ⟨.binary .sub, .additive, .left⟩
  | star => some ⟨.binary .mul, .multiplicative, .left⟩
  | slash => some ⟨.binary .div, .multiplicative, .left⟩
  | backslash => some ⟨.binary .leftDiv, .multiplicative, .left⟩
  | dotStar => some ⟨.binary .elemMul, .multiplicative, .left⟩
  | dotSlash => some ⟨.binary .elemDiv, .multiplicative, .left⟩
  | dotBackslash => some ⟨.binary .elemLeftDiv, .multiplicative, .left⟩
  | caret => some ⟨.binary .pow, .power, .right⟩
  | dotCaret => some ⟨.binary .elemPow, .power, .right⟩
  | _ => none

/-- The unary operator of a kind. -/
def unaryOperator? : Kind → Option UnaryOperator
  | minus => some .minus
  | plus => some .plus
  | tilde => some .not
  | _ => none

/-- The postfix operator of a kind. -/
def postfixOperator? : Kind → Option PostfixOperator
  | leftParen => some .call
  | leftBrace => some .cellIndex
  | dot => some .field
  | transpose | dotTranspose => some .transpose
  | _ => none

end Kind

/-- The least power of the operators in the operand of a unary operator, which may itself begin with
one. -/
def UnaryOperator.operandPower : Nat := Tier.unary.bindingPower

/-- The least power of the operators in the body of an anonymous function: all of them. -/
def lambdaBodyPower : Nat := (Tier.handle.infixPowers .none).2

end MatlabFront
