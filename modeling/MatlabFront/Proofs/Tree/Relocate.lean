import MatlabFront.Proofs.Tree.Positions
import MatlabFront.Tree.Node

/-!
# Trees at other positions

When every position in a tree is moved, the tree says the same about a text that is laid out
differently. Moving twice is moving once by both moves, and the nodes that operators and calls make
are made in the same way elsewhere.
-/

namespace MatlabFront

/-- A name at its moved position. -/
@[simp] def Ident.relocate (move : Position → Position) (name : Ident) : Ident :=
  ⟨name.name, move name.pos⟩

/-- A parameter at its moved position. -/
@[simp] def Param.relocate (move : Position → Position) (param : Param) : Param :=
  ⟨param.name, move param.pos⟩

mutual

/-- An expression with every position moved. -/
@[simp] def Expr.relocate (move : Position → Position) : Expr → Expr
  | .ident name => .ident (name.relocate move)
  | .number text pos => .number text (move pos)
  | .string value pos => .string value (move pos)
  | .colon pos => .colon (move pos)
  | .lastIndex pos => .lastIndex (move pos)
  | .range start none stop pos =>
    .range (start.relocate move) none (stop.relocate move) (move pos)
  | .range start (some step) stop pos =>
    .range (start.relocate move) (some (step.relocate move)) (stop.relocate move) (move pos)
  | .unary operator operand pos => .unary operator (operand.relocate move) (move pos)
  | .binary left operator right pos =>
    .binary (left.relocate move) operator (right.relocate move) (move pos)
  | .matrix rows pos => .matrix (relocateRows move rows) (move pos)
  | .cell rows pos => .cell (relocateRows move rows) (move pos)
  | .call call => .call (call.relocate move)
  | .flatten object args pos =>
    .flatten (object.relocate move) (relocateExprs move args) (move pos)
  | .cellIndex object args pos =>
    .cellIndex (object.relocate move) (relocateExprs move args) (move pos)
  | .member object field pos => .member (object.relocate move) (field.relocate move) (move pos)
  | .transpose operand marks pos => .transpose (operand.relocate move) marks (move pos)
  | .lambda params body pos =>
    .lambda (params.map (Param.relocate move)) (body.relocate move) (move pos)
  | .handle function pos => .handle (function.relocate move) (move pos)
  | .parens inner pos => .parens (inner.relocate move) (move pos)

/-- Expressions with every position moved. -/
def relocateExprs (move : Position → Position) : List Expr → List Expr
  | [] => []
  | expr :: exprs => expr.relocate move :: relocateExprs move exprs

/-- The rows of a literal with every position moved. -/
def relocateRows (move : Position → Position) : List (List Expr) → List (List Expr)
  | [] => []
  | row :: rows => relocateExprs move row :: relocateRows move rows

/-- The name of a member with every position moved. -/
@[simp] def Field.relocate (move : Position → Position) : Field → Field
  | .named name => .named (name.relocate move)
  | .dynamic name => .dynamic (name.relocate move)

/-- A call with every position moved. -/
@[simp] def Call.relocate (move : Position → Position) : Call → Call
  | .mk callee args none pos =>
    .mk (callee.relocate move) (relocateExprs move args) none (move pos)
  | .mk callee args (some outputs) pos =>
    .mk (callee.relocate move) (relocateExprs move args) (some (relocateTargets move outputs))
      (move pos)

/-- A target with every position moved. -/
@[simp] def Target.relocate (move : Position → Position) : Target → Target
  | .var name => .var (name.relocate move)
  | .field object field => .field (object.relocate move) (field.relocate move)
  | .cellIndex object args => .cellIndex (object.relocate move) (relocateExprs move args)
  | .index object args => .index (object.relocate move) (relocateExprs move args)

/-- Targets with every position moved. -/
def relocateTargets (move : Position → Position) : List Target → List Target
  | [] => []
  | target :: targets => target.relocate move :: relocateTargets move targets

end

/-- The head of a function with every position moved. -/
@[simp] def Header.relocate (move : Position → Position) (head : Header) : Header :=
  ⟨head.name.relocate move, head.params.map (Param.relocate move),
    head.outputs.map (Ident.relocate move), head.usesNargin, move head.pos⟩

mutual

/-- A statement with every position moved. -/
@[simp] def Stmt.relocate (move : Position → Position) : Stmt → Stmt
  | .assign target value pos => .assign (target.relocate move) (value.relocate move) (move pos)
  | .eval expr pos => .eval (expr.relocate move) (move pos)
  | .call call => .call (call.relocate move)
  | .branch conditional => .branch (conditional.relocate move)
  | .whileLoop condition body pos =>
    .whileLoop (condition.relocate move) (relocateStmts move body) (move pos)
  | .forLoop var range body pos =>
    .forLoop (var.relocate move) (range.relocate move) (relocateStmts move body) (move pos)
  | .tryCatch body handler pos =>
    .tryCatch (relocateStmts move body) (relocateStmts move handler) (move pos)
  | .leave outputs pos => .leave (outputs.map (Ident.relocate move)) (move pos)
  | .breakLoop pos => .breakLoop (move pos)
  | .continueLoop pos => .continueLoop (move pos)
  | .global names pos => .global (names.map (Ident.relocate move)) (move pos)
  | .function function => .function (function.relocate move)

/-- Statements with every position moved. -/
def relocateStmts (move : Position → Position) : List Stmt → List Stmt
  | [] => []
  | stmt :: stmts => stmt.relocate move :: relocateStmts move stmts

/-- A condition, its body and its alternatives with every position moved. -/
@[simp] def Conditional.relocate (move : Position → Position) : Conditional → Conditional
  | .mk condition body otherwise pos =>
    .mk (condition.relocate move) (relocateStmts move body) (otherwise.relocate move) (move pos)

/-- An alternative with every position moved. -/
@[simp] def Else.relocate (move : Position → Position) : Else → Else
  | .block body => .block (relocateStmts move body)
  | .branch conditional => .branch (conditional.relocate move)

/-- A function with every position moved. -/
@[simp] def Function.relocate (move : Position → Position) : Function → Function
  | .mk head body => .mk (head.relocate move) (relocateStmts move body)

end

/-- A program with every position moved. -/
@[simp] def Program.relocate (move : Position → Position) (program : Program) : Program :=
  ⟨relocateStmts move program.body⟩

/-- A token at its moved position. -/
def Token.relocate (move : Position → Position) (token : Token) : Token :=
  ⟨token.kind, token.text, move token.pos⟩

variable {move : Position → Position}

mutual

/-- Nothing changes when no position moves. -/
theorem Expr.relocate_id (expr : Expr) : expr.relocate id = expr := by
  cases expr with
  | range start step stop pos =>
    cases step with
    | none => simp [start.relocate_id, stop.relocate_id]
    | some step => simp [start.relocate_id, step.relocate_id, stop.relocate_id]
  | unary _ inner | transpose inner | parens inner => simp [inner.relocate_id]
  | binary left _ right => simp [left.relocate_id, right.relocate_id]
  | matrix rows | cell rows => simp [relocateRows_id rows]
  | call call => simp [call.relocate_id]
  | flatten object args | cellIndex object args =>
    simp [object.relocate_id, relocateExprs_id args]
  | member object field => simp [object.relocate_id, field.relocate_id]
  | lambda params body =>
    have same : Param.relocate id = id := rfl
    simp [same, body.relocate_id]
  | _ => rfl

/-- Expressions that are not moved stay as they are. -/
theorem relocateExprs_id (exprs : List Expr) : relocateExprs id exprs = exprs := by
  cases exprs with
  | nil => rfl
  | cons expr exprs => rw [relocateExprs, expr.relocate_id, relocateExprs_id exprs]

/-- Rows that are not moved stay as they are. -/
theorem relocateRows_id (rows : List (List Expr)) : relocateRows id rows = rows := by
  cases rows with
  | nil => rfl
  | cons row rows => rw [relocateRows, relocateExprs_id row, relocateRows_id rows]

/-- A field that is not moved stays as it is. -/
theorem Field.relocate_id (field : Field) : field.relocate id = field := by
  cases field with
  | named name => rfl
  | dynamic name => rw [Field.relocate, name.relocate_id]

/-- A call that is not moved stays as it is. -/
theorem Call.relocate_id (call : Call) : call.relocate id = call := by
  obtain ⟨callee, args, outputs, pos⟩ := call
  cases outputs with
  | none => rw [Call.relocate, callee.relocate_id, relocateExprs_id args]; rfl
  | some outputs =>
    rw [Call.relocate, callee.relocate_id, relocateExprs_id args, relocateTargets_id outputs]
    rfl

/-- A target that is not moved stays as it is. -/
theorem Target.relocate_id (target : Target) : target.relocate id = target := by
  cases target with
  | var name => rfl
  | field object field => rw [Target.relocate, object.relocate_id, field.relocate_id]
  | cellIndex object args | index object args =>
    rw [Target.relocate, object.relocate_id, relocateExprs_id args]

/-- Targets that are not moved stay as they are. -/
theorem relocateTargets_id (targets : List Target) : relocateTargets id targets = targets := by
  cases targets with
  | nil => rfl
  | cons target targets => rw [relocateTargets, target.relocate_id, relocateTargets_id targets]

end

mutual

/-- A tree that is moved twice is moved by both moves. -/
theorem Expr.relocate_relocate (further : Position → Position) (expr : Expr) :
    (expr.relocate move).relocate further = expr.relocate (further ∘ move) := by
  cases expr with
  | range start step stop pos =>
    cases step with
    | none => simp [start.relocate_relocate further, stop.relocate_relocate further]
    | some step =>
      simp [start.relocate_relocate further, step.relocate_relocate further,
        stop.relocate_relocate further]
  | unary _ inner | transpose inner | parens inner => simp [inner.relocate_relocate further]
  | binary left _ right =>
    simp [left.relocate_relocate further, right.relocate_relocate further]
  | matrix rows | cell rows => simp [relocateRows_relocate further rows]
  | call call => simp [call.relocate_relocate further]
  | flatten object args | cellIndex object args =>
    simp [object.relocate_relocate further, relocateExprs_relocate further args]
  | member object field =>
    simp [object.relocate_relocate further, field.relocate_relocate further]
  | lambda params body => simp [body.relocate_relocate further]
  | _ => rfl

/-- Trees that are moved twice are moved by both moves. -/
theorem relocateExprs_relocate (further : Position → Position) (exprs : List Expr) :
    relocateExprs further (relocateExprs move exprs) = relocateExprs (further ∘ move) exprs := by
  cases exprs with
  | nil => rfl
  | cons expr exprs =>
    simp only [relocateExprs]
    rw [expr.relocate_relocate further, relocateExprs_relocate further exprs]

/-- Rows that are moved twice are moved by both moves. -/
theorem relocateRows_relocate (further : Position → Position) (rows : List (List Expr)) :
    relocateRows further (relocateRows move rows) = relocateRows (further ∘ move) rows := by
  cases rows with
  | nil => rfl
  | cons row rows =>
    simp only [relocateRows]
    rw [relocateExprs_relocate further row, relocateRows_relocate further rows]

/-- The name of a member that is moved twice is moved by both moves. -/
theorem Field.relocate_relocate (further : Position → Position) (field : Field) :
    (field.relocate move).relocate further = field.relocate (further ∘ move) := by
  cases field with
  | named name => rfl
  | dynamic name => simp only [Field.relocate, name.relocate_relocate further]

/-- A call that is moved twice is moved by both moves. -/
theorem Call.relocate_relocate (further : Position → Position) (call : Call) :
    (call.relocate move).relocate further = call.relocate (further ∘ move) := by
  obtain ⟨callee, args, outputs, pos⟩ := call
  cases outputs with
  | none =>
    simp only [Call.relocate]
    rw [callee.relocate_relocate further, relocateExprs_relocate further args]
    rfl
  | some outputs =>
    simp only [Call.relocate]
    rw [callee.relocate_relocate further, relocateExprs_relocate further args,
      relocateTargets_relocate further outputs]
    rfl

/-- A target that is moved twice is moved by both moves. -/
theorem Target.relocate_relocate (further : Position → Position) (target : Target) :
    (target.relocate move).relocate further = target.relocate (further ∘ move) := by
  cases target with
  | var name => rfl
  | field object field =>
    simp only [Target.relocate, object.relocate_relocate further, field.relocate_relocate further]
  | cellIndex object args | index object args =>
    simp only [Target.relocate]
    rw [object.relocate_relocate further, relocateExprs_relocate further args]

/-- Targets that are moved twice are moved by both moves. -/
theorem relocateTargets_relocate (further : Position → Position) (targets : List Target) :
    relocateTargets further (relocateTargets move targets) =
      relocateTargets (further ∘ move) targets := by
  cases targets with
  | nil => rfl
  | cons target targets =>
    simp only [relocateTargets]
    rw [target.relocate_relocate further, relocateTargets_relocate further targets]

end

/-- A name that is not moved stays as it is. -/
theorem Ident.relocate_id : Ident.relocate id = id := rfl

/-- A header that is not moved stays as it is. -/
theorem Header.relocate_id (head : Header) : head.relocate id = head := by
  have same : Param.relocate id = id := rfl
  simp [same, Ident.relocate_id]

mutual

/-- Nothing changes when no position moves. -/
theorem Stmt.relocate_id (stmt : Stmt) : stmt.relocate id = stmt := by
  cases stmt with
  | assign target value => simp [target.relocate_id, value.relocate_id]
  | eval expr => simp [expr.relocate_id]
  | call call => simp [call.relocate_id]
  | branch conditional => simp [conditional.relocate_id]
  | whileLoop condition body =>
    rw [Stmt.relocate, condition.relocate_id, relocateStmts_id body]; rfl
  | forLoop var range body =>
    rw [Stmt.relocate, range.relocate_id, relocateStmts_id body]; rfl
  | tryCatch body handler =>
    rw [Stmt.relocate, relocateStmts_id body, relocateStmts_id handler]; rfl
  | leave outputs | global outputs => simp [Ident.relocate_id]
  | breakLoop | continueLoop => rfl
  | function function => rw [Stmt.relocate, function.relocate_id]

/-- Statements that are not moved stay as they are. -/
theorem relocateStmts_id (stmts : List Stmt) : relocateStmts id stmts = stmts := by
  cases stmts with
  | nil => rfl
  | cons stmt stmts => rw [relocateStmts, stmt.relocate_id, relocateStmts_id stmts]

/-- A conditional that is not moved stays as it is. -/
theorem Conditional.relocate_id (conditional : Conditional) :
    conditional.relocate id = conditional := by
  obtain ⟨condition, body, otherwise, pos⟩ := conditional
  rw [Conditional.relocate, condition.relocate_id, relocateStmts_id body, otherwise.relocate_id]
  rfl

/-- An alternative that is not moved stays as it is. -/
theorem Else.relocate_id (otherwise : Else) : otherwise.relocate id = otherwise := by
  cases otherwise with
  | block body => rw [Else.relocate, relocateStmts_id body]
  | branch conditional => rw [Else.relocate, conditional.relocate_id]

/-- A function that is not moved stays as it is. -/
theorem Function.relocate_id (function : Function) : function.relocate id = function := by
  obtain ⟨head, body⟩ := function
  rw [Function.relocate, head.relocate_id, relocateStmts_id body]

end

/-- A token keeps its kind when it is moved. -/
@[simp] theorem Token.relocate_kind (token : Token) :
    (token.relocate move).kind = token.kind := by rw [relocate]

/-- A token keeps its text when it is moved. -/
@[simp] theorem Token.relocate_text (token : Token) :
    (token.relocate move).text = token.text := by rw [relocate]

/-- A token is moved by its position. -/
@[simp] theorem Token.relocate_pos (token : Token) :
    (token.relocate move).pos = move token.pos := rfl

/-- Expressions are moved one by one. -/
@[simp] theorem relocateExprs_eq_map (exprs : List Expr) :
    relocateExprs move exprs = exprs.map (Expr.relocate move) := by
  induction exprs with
  | nil => rfl
  | cons expr exprs ih => simp [relocateExprs, ih]

/-- Rows are moved element by element. -/
@[simp] theorem relocateRows_eq_map (rows : List (List Expr)) :
    relocateRows move rows = rows.map (List.map (Expr.relocate move)) := by
  induction rows with
  | nil => rfl
  | cons row rows ih => simp [relocateRows, ih]

/-- Targets are moved one by one. -/
@[simp] theorem relocateTargets_eq_map (targets : List Target) :
    relocateTargets move targets = targets.map (Target.relocate move) := by
  induction targets with
  | nil => rfl
  | cons target targets ih => simp [relocateTargets, ih]

/-- Statements are moved one by one. -/
@[simp] theorem relocateStmts_eq_map (stmts : List Stmt) :
    relocateStmts move stmts = stmts.map (Stmt.relocate move) := by
  induction stmts with
  | nil => rfl
  | cons stmt stmts ih => simp [relocateStmts, ih]

/-- An expression stands where its position moves. -/
@[simp] theorem Expr.pos_relocate (expr : Expr) : (expr.relocate move).pos = move expr.pos := by
  cases expr with
  | call call =>
    obtain ⟨callee, args, _ | outputs, pos⟩ := call
    · rfl
    · rfl
  | range start step stop pos => cases step <;> rfl
  | _ => rfl

section Nodes

variable (left right : Expr) (pos : Position)

/-- A range goes on as it does elsewhere. -/
theorem Expr.relocate_rangeTo :
    (left.rangeTo right pos).relocate move =
      (left.relocate move).rangeTo (right.relocate move) (move pos) := by
  cases left with
  | range start step stop first => cases step <;> simp [rangeTo]
  | call call =>
    obtain ⟨callee, args, _ | outputs, first⟩ := call <;> simp [rangeTo]
  | _ => simp [rangeTo]

/-- The node of an infix operator is moved with its parts. -/
theorem Expr.relocate_infixNode (operator : InfixOperator) :
    (Expr.infixNode operator left right pos).relocate move =
      .infixNode operator (left.relocate move) (right.relocate move) (move pos) := by
  unfold infixNode
  cases operator.action with
  | binary operator => simp
  | range => exact relocate_rangeTo left right pos

/-- A lone colon is a lone colon elsewhere. -/
theorem Expr.relocate_apply (callee : Expr) (args : List Expr) :
    (callee.apply args).relocate move =
      (callee.relocate move).apply (args.map (Expr.relocate move)) := by
  match args with
  | [] => simp [apply]
  | [arg] =>
    cases arg with
    | range start step stop => cases step <;> simp [apply]
    | call call => obtain ⟨callee, args, _ | outputs, first⟩ := call <;> simp [apply]
    | _ => simp [apply]
  | first :: second :: more =>
    simp [apply]

end Nodes

end MatlabFront
