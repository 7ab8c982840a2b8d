import MatlabFront.Failure
import MatlabFront.Tree

/-!
# Assignments

An assignment is read as two expressions, and its left one is then taken as a target. Names,
members, subscripts and calls without outputs are targets; nothing else is. A matrix on the left is
a list of targets: it has one row, which is not empty, and the value is a call, or a name that is
called without arguments. The targets become the outputs of that call.
-/

namespace MatlabFront

/-- The target that an expression writes, if it is one. -/
def Target.ofExpr? : Expr → Option Target
  | .ident name => some (.var name)
  | .member object name _ => some (.field object name)
  | .cellIndex object args _ => some (.cellIndex object args)
  | .flatten object args _ => some (.index object args)
  | .call (.mk callee args none _) => some (.index callee args)
  | _ => none

namespace Assignment

/-- The target that an expression writes. -/
def target (expr : Expr) : Except Failure Target :=
  match Target.ofExpr? expr with
  | some target => .ok target
  | none => .error (.invalidTarget .notAssignable expr.pos)

/-- The targets that expressions write, up to the first that writes none. -/
def targets : List Expr → Except Failure (List Target)
  | [] => .ok []
  | expr :: exprs =>
    match target expr with
    | .error failure => .error failure
    | .ok first =>
      match targets exprs with
      | .error failure => .error failure
      | .ok later => .ok (first :: later)

/-- The call of a value with some outputs. -/
def callWith (outputs : List Target) : Expr → Except Failure Call
  | .ident name => .ok (.mk (.ident name) [] (some outputs) name.pos)
  | .call (.mk callee args none pos) => .ok (.mk callee args (some outputs) pos)
  | other => .error (.invalidTarget .valueNotACall other.pos)

/-- The call of an assignment to the elements of a matrix. -/
def multiple (rows : List (List Expr)) (pos : Position) (value : Expr) : Except Failure Call :=
  match rows with
  | [first :: more] =>
    match targets (first :: more) with
    | .error failure => .error failure
    | .ok outputs => callWith outputs value
  | _ => .error (.invalidTarget .targetsNotARow pos)

/-- The statement of an assignment, at the position of its sign. -/
def statement (left value : Expr) (pos : Position) : Except Failure Stmt :=
  match left with
  | .matrix rows start =>
    match multiple rows start value with
    | .error failure => .error failure
    | .ok call => .ok (.call call)
  | other =>
    match target other with
    | .error failure => .error failure
    | .ok target => .ok (.assign target value pos)

end Assignment

end MatlabFront
