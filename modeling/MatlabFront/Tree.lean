import MatlabFront.Operator
import MatlabFront.Position

/-!
# Syntax trees

The tree of a program. Every node carries the position of the token that names it best: the
operator of a binary expression, the opening bracket of a literal, the keyword of a statement, the
callee of a call. A `switch` has no node of its own; it is an if chain.
-/

namespace MatlabFront

/-- A name where it is written. -/
structure Ident where
  name : String
  pos : Position
  deriving DecidableEq

/-- A formal parameter of a function. -/
structure Param where
  name : String
  pos : Position
  deriving DecidableEq

/-- The parameter that a name declares. -/
def Param.ofIdent (ident : Ident) : Param := ⟨ident.name, ident.pos⟩

mutual

/-- Expressions. -/
inductive Expr where
  | ident (ident : Ident)
  | number (text : String) (pos : Position)
  | string (value : String) (pos : Position)
  /-- A bare `:`, all elements of a dimension. -/
  | colon (pos : Position)
  /-- A range `start:stop` or `start:step:stop`. -/
  | range (start : Expr) (step : Option Expr) (stop : Expr) (pos : Position)
  /-- The word `end` inside a subscript. -/
  | lastIndex (pos : Position)
  | unary (operator : UnaryOperator) (operand : Expr) (pos : Position)
  | binary (left : Expr) (operator : BinaryOperator) (right : Expr) (pos : Position)
  | matrix (rows : List (List Expr)) (pos : Position)
  | cell (rows : List (List Expr)) (pos : Position)
  /-- A call, or an index that is not yet told apart from one. -/
  | call (call : Call)
  /-- The subscript `a(:)`, which flattens its object. -/
  | flatten (object : Expr) (args : List Expr) (pos : Position)
  | cellIndex (object : Expr) (args : List Expr) (pos : Position)
  | member (object : Expr) (field : Field) (pos : Position)
  /-- A run of transpose marks, kept as written. -/
  | transpose (operand : Expr) (marks : String) (pos : Position)
  | lambda (params : List Param) (body : Expr) (pos : Position)
  | handle (function : Ident) (pos : Position)
  | parens (inner : Expr) (pos : Position)

/-- The member that a field access names. -/
inductive Field where
  | named (name : Ident)
  | dynamic (name : Expr)

/-- A call. Its outputs are the targets of a statement such as `[a, b] = f(x)`, and absent elsewhere. -/
inductive Call where
  | mk (callee : Expr) (args : List Expr) (outputs : Option (List Target)) (pos : Position)

/-- What can be assigned to. -/
inductive Target where
  | var (name : Ident)
  | field (object : Expr) (field : Field)
  | cellIndex (object : Expr) (args : List Expr)
  | index (object : Expr) (args : List Expr)

end

/-- The head of a function definition. -/
structure Header where
  name : Ident
  params : List Param
  outputs : List Ident
  /-- The body refers to the number of arguments. -/
  usesNargin : Bool
  pos : Position

mutual

/-- Statements. -/
inductive Stmt where
  | assign (target : Target) (value : Expr) (pos : Position)
  | eval (expr : Expr) (pos : Position)
  /-- A call with outputs, or a command. -/
  | call (call : Call)
  | branch (conditional : Conditional)
  | whileLoop (condition : Expr) (body : List Stmt) (pos : Position)
  | forLoop (var : Ident) (range : Expr) (body : List Stmt) (pos : Position)
  | tryCatch (body handler : List Stmt) (pos : Position)
  /-- A return, with the outputs that the enclosing function declares. -/
  | leave (outputs : List Ident) (pos : Position)
  | breakLoop (pos : Position)
  | continueLoop (pos : Position)
  | global (names : List Ident) (pos : Position)
  | function (function : Function)

/-- One condition with its body and what holds otherwise. -/
inductive Conditional where
  | mk (condition : Expr) (body : List Stmt) (otherwise : Else) (pos : Position)

/-- What runs when a condition fails: a block, or a further condition. -/
inductive Else where
  | block (body : List Stmt)
  | branch (conditional : Conditional)

/-- A function definition. -/
inductive Function where
  | mk (head : Header) (body : List Stmt)

end

/-- A program: its top-level statements, functions among them. -/
structure Program where
  body : List Stmt

namespace Call

/-- The expression that is called. -/
def callee : Call → Expr
  | mk callee _ _ _ => callee

/-- The arguments of a call. -/
def args : Call → List Expr
  | mk _ args _ _ => args

/-- The targets of a call, when its statement has some. -/
def outputs : Call → Option (List Target)
  | mk _ _ outputs _ => outputs

/-- The position of a call, which is that of its callee. -/
def pos : Call → Position
  | mk _ _ _ pos => pos

end Call

namespace Conditional

/-- The condition. -/
def condition : Conditional → Expr
  | mk condition _ _ _ => condition

/-- The statements that run when the condition holds. -/
def body : Conditional → List Stmt
  | mk _ body _ _ => body

/-- What runs when the condition fails. -/
def otherwise : Conditional → Else
  | mk _ _ otherwise _ => otherwise

/-- The position of the keyword of a condition. -/
def pos : Conditional → Position
  | mk _ _ _ pos => pos

end Conditional

namespace Function

/-- The head of a function. -/
def head : Function → Header
  | mk head _ => head

/-- The body of a function. -/
def body : Function → List Stmt
  | mk _ body => body

end Function

/-- The position of an expression. -/
def Expr.pos : Expr → Position
  | .ident name => name.pos
  | .call inner => inner.pos
  | .number _ pos | .string _ pos | .colon pos | .range _ _ _ pos | .lastIndex pos
  | .unary _ _ pos | .binary _ _ _ pos | .matrix _ pos | .cell _ pos | .flatten _ _ pos
  | .cellIndex _ _ pos | .member _ _ pos | .transpose _ _ pos | .lambda _ _ pos | .handle _ pos
  | .parens _ pos => pos

end MatlabFront
