import MatlabFront.Proofs.Expression.Grouping

/-!
# Statements as they are written

A program is written with switches and with returns that name no outputs; its tree has neither. The
types of this file keep what is written, and `lower` says which tree it stands for: a switch is the
chain of conditions that compare its subject with each case in turn, or just its last part when it
has no case, a return carries the outputs of its function, and a function ends with a return.
-/

namespace MatlabFront

namespace Surface

mutual

/-- A statement as it is written. -/
inductive Statement where
  | assign (target : Target) (value : Expr) (pos : Position)
  /-- An assignment of the outputs of a call. -/
  | assignAll (targets : List Target) (callee : Expr) (args : List Expr) (pos : Position)
  | eval (expr : Expr)
  | command (call : Call)
  | branch (condition : Expr) (body : List Statement) (tail : Tail) (pos : Position)
  | whileLoop (condition : Expr) (body : List Statement) (pos : Position)
  | forLoop (var : Ident) (range : Expr) (body : List Statement) (pos : Position)
  | switch (subject : Expr) (cases : Cases)
  | tryCatch (body handler : List Statement) (pos : Position)
  | leave (pos : Position)
  | breakLoop (pos : Position)
  | continueLoop (pos : Position)
  | global (names : List Ident) (pos : Position)

/-- What is written behind the first body of an `if`. -/
inductive Tail where
  | none
  | otherwise (body : List Statement)
  | branch (condition : Expr) (body : List Statement) (tail : Tail) (pos : Position)

/-- The cases of a switch and the statements behind its `otherwise`, as far as there are any. -/
inductive Cases where
  | none
  | otherwise (body : List Statement)
  | case (value : Expr) (body : List Statement) (cases : Cases) (pos : Position)

end

/-- What is written at the top of a program. -/
inductive Item where
  | statement (written : Statement)
  | function (head : Header) (body : List Statement)

/-- The statements that an alternative comes to when nothing stands in front of it. -/
def alternative : Else → List Stmt
  | .block body => body
  | .branch conditional => [.branch conditional]

mutual

/-- The tree of a statement in a function with some outputs. -/
def Statement.lower (outputs : List Ident) : Statement → List Stmt
  | .assign target value pos => [.assign target value pos]
  | .assignAll targets callee args pos => [.call (.mk callee args (some targets) pos)]
  | .eval expr => [.eval expr expr.pos]
  | .command call => [.call call]
  | .branch condition body tail pos =>
    [.branch (.mk condition (lowerAll outputs body) (tail.lower outputs) pos)]
  | .whileLoop condition body pos => [.whileLoop condition (lowerAll outputs body) pos]
  | .forLoop var range body pos => [.forLoop var range (lowerAll outputs body) pos]
  | .switch subject cases => alternative (cases.lower outputs subject)
  | .tryCatch body handler pos =>
    [.tryCatch (lowerAll outputs body) (lowerAll outputs handler) pos]
  | .leave pos => [.leave outputs pos]
  | .breakLoop pos => [.breakLoop pos]
  | .continueLoop pos => [.continueLoop pos]
  | .global names pos => [.global names pos]

/-- The tree of some statements, one after another. -/
def lowerAll (outputs : List Ident) : List Statement → List Stmt
  | [] => []
  | statement :: statements => statement.lower outputs ++ lowerAll outputs statements

/-- The tree of what is written behind the first body of an `if`. -/
def Tail.lower (outputs : List Ident) : Tail → Else
  | .none => .block []
  | .otherwise body => .block (lowerAll outputs body)
  | .branch condition body tail pos =>
    .branch (.mk condition (lowerAll outputs body) (tail.lower outputs) pos)

/-- The tree of the cases of a switch: each compares its value with the subject, and the cases
behind it are its alternative. -/
def Cases.lower (outputs : List Ident) (subject : Expr) : Cases → Else
  | .none => .block []
  | .otherwise body => .block (lowerAll outputs body)
  | .case value body cases pos =>
    .branch (.mk (.binary value .equal subject pos) (lowerAll outputs body)
      (cases.lower outputs subject) pos)

end

/-- A statement is a return. -/
def isReturn : Stmt → Bool
  | .leave _ _ => true
  | _ => false

/-- The body of a function, with a return behind it unless it ends with one. -/
def closed (head : Header) (body : List Stmt) : List Stmt :=
  if body.getLast?.any isReturn then body else body ++ [.leave head.outputs head.pos]

/-- The tree of a statement or function at the top of a program, where a return has no outputs. -/
def Item.lower : Item → List Stmt
  | .statement written => written.lower []
  | .function head body => [.function (.mk head (closed head (lowerAll head.outputs body)))]

mutual

/-- The expressions that are written in a statement, with its targets and the names that it uses. -/
def Statement.exprs : Statement → List Expr
  | .assign target value _ => [target.expr, value]
  | .assignAll targets callee args pos => [.call (.mk callee args (some targets) pos)]
  | .eval expr => [expr]
  | .command call => [.call call]
  | .branch condition body tail _ => condition :: exprsAll body ++ tail.exprs
  | .whileLoop condition body _ => condition :: exprsAll body
  | .forLoop var range body _ => .ident var :: range :: exprsAll body
  | .switch subject cases => subject :: cases.exprs
  | .tryCatch body handler _ => exprsAll body ++ exprsAll handler
  | .leave _ | .breakLoop _ | .continueLoop _ => []
  | .global names _ => names.map .ident

/-- The expressions that are written in some statements. -/
def exprsAll : List Statement → List Expr
  | [] => []
  | statement :: statements => statement.exprs ++ exprsAll statements

/-- The expressions that are written behind the first body of an `if`. -/
def Tail.exprs : Tail → List Expr
  | .none => []
  | .otherwise body => exprsAll body
  | .branch condition body tail _ => condition :: exprsAll body ++ tail.exprs

/-- The expressions that are written in the cases of a switch. -/
def Cases.exprs : Cases → List Expr
  | .none => []
  | .otherwise body => exprsAll body
  | .case value body cases _ => value :: exprsAll body ++ cases.exprs

end

/-- The expressions that are written in a statement or function at the top of a program. -/
def Item.exprs : Item → List Expr
  | .statement written => written.exprs
  | .function _ body => exprsAll body

end Surface

end MatlabFront
