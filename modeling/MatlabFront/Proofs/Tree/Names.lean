import MatlabFront.Proofs.Expression.Grouping

/-!
# The names in a tree

Every name that is written in a tree, with the place in which it is written: as an output of a call,
as the operand with which an element of a literal ends, or elsewhere. A parameter is no name.
-/

namespace MatlabFront

/-- Where a name is written. -/
inductive Place where
  /-- As an output of a call. -/
  | output
  /-- As the operand with which an element of a matrix or cell literal ends, outside of the brackets
  in the element. -/
  | element
  | elsewhere
  deriving DecidableEq

mutual

/-- The names in an expression, when the operand with which it ends is in some place. -/
def Expr.names (place : Place) : Expr → List (Place × Ident)
  | .ident name => [(place, name)]
  | .number _ _ | .string _ _ | .colon _ | .lastIndex _ => []
  | .range start none stop _ => start.names .elsewhere ++ stop.names place
  | .range start (some step) stop _ =>
    start.names .elsewhere ++ (step.names .elsewhere ++ stop.names place)
  | .unary _ operand _ => operand.names place
  | .binary left _ right _ => left.names .elsewhere ++ right.names place
  | .matrix rows _ | .cell rows _ => rowNames rows
  | .call call => call.names
  | .flatten object args _ | .cellIndex object args _ => object.names .elsewhere ++ argNames args
  | .member object field _ => object.names .elsewhere ++ field.names
  | .transpose operand _ _ => operand.names .elsewhere
  | .lambda _ body _ => body.names place
  | .handle function _ => [(.elsewhere, function)]
  | .parens inner _ => inner.names .elsewhere

/-- The names in some arguments. -/
def argNames : List Expr → List (Place × Ident)
  | [] => []
  | arg :: args => arg.names .elsewhere ++ argNames args

/-- The names in some elements of a row. -/
def elementNames : List Expr → List (Place × Ident)
  | [] => []
  | element :: elements => element.names .element ++ elementNames elements

/-- The names in the rows of a literal. -/
def rowNames : List (List Expr) → List (Place × Ident)
  | [] => []
  | row :: rows => elementNames row ++ rowNames rows

/-- The names in the name of a member. -/
def Field.names : Field → List (Place × Ident)
  | .named name => [(.elsewhere, name)]
  | .dynamic name => name.names .elsewhere

/-- The names in a call. -/
def Call.names : Call → List (Place × Ident)
  | .mk callee args none _ => callee.names .elsewhere ++ argNames args
  | .mk callee args (some outputs) _ =>
    callee.names .elsewhere ++ (argNames args ++ outputNames outputs)

/-- The names in a target, when the target itself is in some place. -/
def Target.names (place : Place) : Target → List (Place × Ident)
  | .var name => [(place, name)]
  | .field object field => object.names .elsewhere ++ field.names
  | .cellIndex object args | .index object args => object.names .elsewhere ++ argNames args

/-- The names in the outputs of a call. -/
def outputNames : List Target → List (Place × Ident)
  | [] => []
  | target :: targets => target.names .output ++ outputNames targets

end

/-- Names that are written elsewhere. -/
def plainNames (names : List Ident) : List (Place × Ident) := names.map (.elsewhere, ·)

mutual

/-- The names in a statement. -/
def Stmt.names : Stmt → List (Place × Ident)
  | .assign target value _ => target.names .elsewhere ++ value.names .elsewhere
  | .eval expr _ => expr.names .elsewhere
  | .call call => call.names
  | .branch conditional => conditional.names
  | .whileLoop condition body _ => condition.names .elsewhere ++ blockNames body
  | .forLoop var range body _ => plainNames [var] ++ (range.names .elsewhere ++ blockNames body)
  | .tryCatch body handler _ => blockNames body ++ blockNames handler
  | .leave outputs _ => plainNames outputs
  | .breakLoop _ | .continueLoop _ => []
  | .global names _ => plainNames names
  | .function function => function.names

/-- The names in some statements. -/
def blockNames : List Stmt → List (Place × Ident)
  | [] => []
  | stmt :: stmts => stmt.names ++ blockNames stmts

/-- The names in a condition, its body and its alternatives. -/
def Conditional.names : Conditional → List (Place × Ident)
  | .mk condition body otherwise _ =>
    condition.names .elsewhere ++ (blockNames body ++ otherwise.names)

/-- The names in an alternative. -/
def Else.names : Else → List (Place × Ident)
  | .block body => blockNames body
  | .branch conditional => conditional.names

/-- The names in a function. -/
def Function.names : Function → List (Place × Ident)
  | .mk head body => plainNames (head.name :: head.outputs) ++ blockNames body

end

/-- The names in a program. -/
def Program.names (program : Program) : List (Place × Ident) := blockNames program.body

variable {entry : Place × Ident}

/-- The names of some arguments are those of each of them. -/
theorem mem_argNames {args : List Expr} :
    entry ∈ argNames args ↔ ∃ arg ∈ args, entry ∈ arg.names .elsewhere := by
  induction args with
  | nil => simp [argNames]
  | cons arg args ih => simp [argNames, ih]

/-- The names of a row are those of each of its elements. -/
theorem mem_elementNames {row : List Expr} :
    entry ∈ elementNames row ↔ ∃ element ∈ row, entry ∈ element.names .element := by
  induction row with
  | nil => simp [elementNames]
  | cons element row ih => simp [elementNames, ih]

/-- The names of some rows are those of all their elements. -/
theorem mem_rowNames {rows : List (List Expr)} :
    entry ∈ rowNames rows ↔ entry ∈ elementNames rows.flatten := by
  induction rows with
  | nil => simp [rowNames, elementNames]
  | cons row rows ih =>
    rw [rowNames, List.mem_append, ih]
    simp only [mem_elementNames, List.flatten_cons, List.mem_append, or_and_right, exists_or]

/-- The names of some targets are those of each of them, as outputs. -/
theorem mem_outputNames {targets : List Target} :
    entry ∈ outputNames targets ↔ ∃ target ∈ targets, entry ∈ target.names .output := by
  induction targets with
  | nil => simp [outputNames]
  | cons target targets ih => simp [outputNames, ih]

/-- The names of two blocks stand one behind the other. -/
theorem blockNames_append (body more : List Stmt) :
    blockNames (body ++ more) = blockNames body ++ blockNames more := by
  induction body with
  | nil => rfl
  | cons stmt body ih => simp [blockNames, ih]

/-- A subscript or call has the names of its callee and of its arguments. -/
theorem Expr.names_apply (callee : Expr) (args : List Expr) (place : Place) :
    (callee.apply args).names place = callee.names .elsewhere ++ argNames args := by
  unfold apply
  split <;> rfl

/-- The expression that writes a target has its names where the target has them. -/
theorem Target.names_expr (target : Target) (place : Place) :
    target.expr.names place = target.names place := by
  cases target with
  | var | field | cellIndex => rfl
  | index object args => exact Expr.names_apply object args place

/-- An expression that ends an element has its names where it has them elsewhere, apart from the
operand with which it ends. -/
theorem Expr.names_element : ∀ {expr : Expr}, entry ∈ expr.names .element →
    entry ∈ expr.names .elsewhere ∨ entry.1 = .element
  | .ident _, inside => .inr (by simp_all [Expr.names])
  | .range start none stop _, inside => by
    have behind := @Expr.names_element stop
    grind [Expr.names]
  | .range start (some step) stop _, inside => by
    have behind := @Expr.names_element stop
    grind [Expr.names]
  | .unary _ operand _, inside => by
    have behind := @Expr.names_element operand
    grind [Expr.names]
  | .binary _ _ right _, inside => by
    have behind := @Expr.names_element right
    grind [Expr.names]
  | .lambda _ body _, inside => by
    have behind := @Expr.names_element body
    grind [Expr.names]
  | .number _ _, inside | .string _ _, inside | .colon _, inside | .lastIndex _, inside
  | .matrix _ _, inside | .cell _ _, inside | .call _, inside | .flatten _ _ _, inside
  | .cellIndex _ _ _, inside | .member _ _ _, inside | .transpose _ _ _, inside
  | .handle _ _, inside | .parens _ _, inside => .inl inside

end MatlabFront
