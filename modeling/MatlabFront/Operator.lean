/-!
# Operators

The binary and unary operators of expressions, with the names under which records show them and
the symbols under which a program writes them.
-/

namespace MatlabFront

/-- The binary operators. Those named `elem` work element by element. -/
inductive BinaryOperator where
  | add
  | sub
  | mul
  | div
  | leftDiv
  | pow
  | elemMul
  | elemDiv
  | elemLeftDiv
  | elemPow
  | andAnd
  | orOr
  | and
  | or
  | equal
  | notEqual
  | less
  | lessEqual
  | greater
  | greaterEqual
  deriving DecidableEq

namespace BinaryOperator

/-- Every binary operator, once. -/
def all : List BinaryOperator :=
  [add, sub, mul, div, leftDiv, pow, elemMul, elemDiv, elemLeftDiv, elemPow, andAnd, orOr, and, or,
    equal, notEqual, less, lessEqual, greater, greaterEqual]

/-- The name of an operator in records. -/
def name : BinaryOperator → String
  | add => "Add"
  | sub => "Sub"
  | mul => "Mul"
  | div => "Div"
  | leftDiv => "LeftDiv"
  | pow => "Pow"
  | elemMul => "ElemMul"
  | elemDiv => "ElemDiv"
  | elemLeftDiv => "ElemLeftDiv"
  | elemPow => "ElemPow"
  | andAnd => "AndAnd"
  | orOr => "OrOr"
  | and => "And"
  | or => "Or"
  | equal => "Equal"
  | notEqual => "NotEqual"
  | less => "Less"
  | lessEqual => "LessEqual"
  | greater => "Greater"
  | greaterEqual => "GreaterEqual"

/-- The symbol of an operator in a program. Inequality has several spellings and is shown as `~=`. -/
def symbol : BinaryOperator → String
  | add => "+"
  | sub => "-"
  | mul => "*"
  | div => "/"
  | leftDiv => "\\"
  | pow => "^"
  | elemMul => ".*"
  | elemDiv => "./"
  | elemLeftDiv => ".\\"
  | elemPow => ".^"
  | andAnd => "&&"
  | orOr => "||"
  | and => "&"
  | or => "|"
  | equal => "=="
  | notEqual => "~="
  | less => "<"
  | lessEqual => "<="
  | greater => ">"
  | greaterEqual => ">="

/-- The operator of a name. -/
def ofName? (name : String) : Option BinaryOperator := all.find? (·.name == name)

/-- The name of an operator determines the operator. -/
theorem ofName?_name (operator : BinaryOperator) : ofName? operator.name = some operator := by
  cases operator <;> decide +kernel

end BinaryOperator

/-- The unary operators, all written in front of their operand. -/
inductive UnaryOperator where
  | plus
  | minus
  | not
  deriving DecidableEq

namespace UnaryOperator

/-- Every unary operator, once. -/
def all : List UnaryOperator := [plus, minus, not]

/-- The name of an operator in records. -/
def name : UnaryOperator → String
  | plus => "Plus"
  | minus => "Minus"
  | not => "Not"

/-- The operator of a name. -/
def ofName? (name : String) : Option UnaryOperator := all.find? (·.name == name)

/-- The name of an operator determines the operator. -/
theorem ofName?_name (operator : UnaryOperator) : ofName? operator.name = some operator := by
  cases operator <;> decide +kernel

end UnaryOperator

end MatlabFront
