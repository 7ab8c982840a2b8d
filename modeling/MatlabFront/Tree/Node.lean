import MatlabFront.Precedence
import MatlabFront.Tree

/-!
# Nodes from their parts

Three tokens build more than one kind of node, told apart by the parts at hand: a second colon
turns a range of two operands into one with a step, a lone bare colon as subscript flattens its
object, and a run of infix operators takes its node from the table.
-/

namespace MatlabFront.Expr

/-- The node of a colon between two operands. A range of two operands on the left takes the new
operand as its stop, and its old stop becomes the step; in parentheses it stays as it is. -/
def rangeTo (left right : Expr) (pos : Position) : Expr :=
  match left with
  | .range start none stop first => .range start (some stop) right first
  | other => .range other none right pos

/-- The node of an infix operator between two operands. -/
def infixNode (operator : InfixOperator) (left right : Expr) (pos : Position) : Expr :=
  match operator.action with
  | .binary operator => .binary left operator right pos
  | .range => left.rangeTo right pos

/-- The node of a subscript or argument list in parentheses. -/
def apply (callee : Expr) (args : List Expr) : Expr :=
  match args with
  | [.colon _] => .flatten callee args callee.pos
  | _ => .call (.mk callee args none callee.pos)

end MatlabFront.Expr
