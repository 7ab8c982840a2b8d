import MatlabFront.Tree

/-!
# The positions in a tree

Every position that some node of a tree carries, with those of the names and parameters in it.
-/

namespace MatlabFront

mutual

/-- The positions in an expression. -/
def Expr.positions : Expr → List Position
  | .ident name => [name.pos]
  | .number _ pos | .string _ pos | .colon pos | .lastIndex pos => [pos]
  | .range start none stop pos => pos :: (start.positions ++ stop.positions)
  | .range start (some step) stop pos =>
    pos :: (start.positions ++ (step.positions ++ stop.positions))
  | .unary _ operand pos => pos :: operand.positions
  | .binary left _ right pos => pos :: (left.positions ++ right.positions)
  | .matrix rows pos | .cell rows pos => pos :: rowPositions rows
  | .call call => call.positions
  | .flatten object args pos | .cellIndex object args pos =>
    pos :: (object.positions ++ exprPositions args)
  | .member object field pos => pos :: (object.positions ++ field.positions)
  | .transpose operand _ pos => pos :: operand.positions
  | .lambda params body pos => pos :: (params.map Param.pos ++ body.positions)
  | .handle function pos => [pos, function.pos]
  | .parens inner pos => pos :: inner.positions

/-- The positions in some expressions. -/
def exprPositions : List Expr → List Position
  | [] => []
  | expr :: exprs => expr.positions ++ exprPositions exprs

/-- The positions in the rows of a literal. -/
def rowPositions : List (List Expr) → List Position
  | [] => []
  | row :: rows => exprPositions row ++ rowPositions rows

/-- The positions in the name of a member. -/
def Field.positions : Field → List Position
  | .named name => [name.pos]
  | .dynamic name => name.positions

/-- The positions in a call. -/
def Call.positions : Call → List Position
  | .mk callee args none pos => pos :: (callee.positions ++ exprPositions args)
  | .mk callee args (some outputs) pos =>
    pos :: (callee.positions ++ (exprPositions args ++ targetPositions outputs))

/-- The positions in a target. -/
def Target.positions : Target → List Position
  | .var name => [name.pos]
  | .field object field => object.positions ++ field.positions
  | .cellIndex object args | .index object args => object.positions ++ exprPositions args

/-- The positions in some targets. -/
def targetPositions : List Target → List Position
  | [] => []
  | target :: targets => target.positions ++ targetPositions targets

end

/-- The positions in the head of a function. -/
def Header.positions (head : Header) : List Position :=
  head.pos :: head.name.pos :: (head.params.map Param.pos ++ head.outputs.map Ident.pos)

mutual

/-- The positions in a statement. -/
def Stmt.positions : Stmt → List Position
  | .assign target value pos => pos :: (target.positions ++ value.positions)
  | .eval expr pos => pos :: expr.positions
  | .call call => call.positions
  | .branch conditional => conditional.positions
  | .whileLoop condition body pos => pos :: (condition.positions ++ blockPositions body)
  | .forLoop var range body pos =>
    pos :: var.pos :: (range.positions ++ blockPositions body)
  | .tryCatch body handler pos => pos :: (blockPositions body ++ blockPositions handler)
  | .leave outputs pos => pos :: outputs.map Ident.pos
  | .breakLoop pos | .continueLoop pos => [pos]
  | .global names pos => pos :: names.map Ident.pos
  | .function function => function.positions

/-- The positions in some statements. -/
def blockPositions : List Stmt → List Position
  | [] => []
  | stmt :: stmts => stmt.positions ++ blockPositions stmts

/-- The positions in a condition, its body and its alternatives. -/
def Conditional.positions : Conditional → List Position
  | .mk condition body otherwise pos =>
    pos :: (condition.positions ++ (blockPositions body ++ otherwise.positions))

/-- The positions in an alternative. -/
def Else.positions : Else → List Position
  | .block body => blockPositions body
  | .branch conditional => conditional.positions

/-- The positions in a function. -/
def Function.positions : Function → List Position
  | .mk head body => head.positions ++ blockPositions body

end

/-- The positions in a program. -/
def Program.positions (program : Program) : List Position := blockPositions program.body

/-- The positions of some expressions are those of each of them. -/
theorem mem_exprPositions {pos : Position} {exprs : List Expr} :
    pos ∈ exprPositions exprs ↔ ∃ expr ∈ exprs, pos ∈ expr.positions := by
  induction exprs with
  | nil => simp [exprPositions]
  | cons expr exprs ih => simp [exprPositions, ih]

/-- The positions of some rows are those of all their elements. -/
theorem mem_rowPositions {pos : Position} {rows : List (List Expr)} :
    pos ∈ rowPositions rows ↔ pos ∈ exprPositions rows.flatten := by
  induction rows with
  | nil => simp [rowPositions, exprPositions]
  | cons row rows ih =>
    rw [rowPositions, List.mem_append, ih]
    simp only [mem_exprPositions, List.flatten_cons, List.mem_append, or_and_right, exists_or]

/-- The positions of some targets are those of each of them. -/
theorem mem_targetPositions {pos : Position} {targets : List Target} :
    pos ∈ targetPositions targets ↔ ∃ target ∈ targets, pos ∈ target.positions := by
  induction targets with
  | nil => simp [targetPositions]
  | cons target targets ih => simp [targetPositions, ih]

/-- The positions of two blocks stand one behind the other. -/
theorem blockPositions_append (body more : List Stmt) :
    blockPositions (body ++ more) = blockPositions body ++ blockPositions more := by
  induction body with
  | nil => rfl
  | cons stmt body ih => simp [blockPositions, ih]

/-- An expression stands at one of its positions. -/
theorem Expr.pos_mem_positions (expr : Expr) : expr.pos ∈ expr.positions := by
  cases expr with
  | call call =>
    obtain ⟨callee, args, _ | outputs, pos⟩ := call
    · exact .head _
    · exact .head _
  | range start step stop pos => cases step <;> exact .head _
  | _ => exact .head _

end MatlabFront
