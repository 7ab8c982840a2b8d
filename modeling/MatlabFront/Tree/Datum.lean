import MatlabFront.Datum
import MatlabFront.Failure
import MatlabFront.Tree

/-!
# Trees as data

The datum of each kind of node: the names of the records, fields and cases under which trees are
written, and the order of the fields.
-/

namespace MatlabFront

/-- The datum of a position. -/
def Position.toDatum (pos : Position) : Datum :=
  .record "Position" [("line", .natural pos.line), ("offset", .natural pos.offset)]

/-- The datum of a token. -/
def Token.toDatum (token : Token) : Datum :=
  .record "Token" [("kind", .atom token.kind.name), ("text", .text token.text),
    ("line", .natural token.pos.line), ("offset", .natural token.pos.offset)]

/-- The datum of a name. -/
def Ident.toDatum (ident : Ident) : Datum :=
  .record "Ident" [("name", .text ident.name), ("pos", ident.pos.toDatum)]

/-- The datum of a parameter. -/
def Param.toDatum (param : Param) : Datum :=
  .record "Param" [("name", .text param.name), ("pos", param.pos.toDatum)]

mutual

/-- The datum of an expression. -/
def Expr.toDatum : Expr → Datum
  | .ident ident => .case "Ident" ident.toDatum []
  | .number text pos => .case "Number" (.text text) [pos.toDatum]
  | .string value pos => .case "String" (.text value) [pos.toDatum]
  | .colon pos => .case "Colon" pos.toDatum []
  | .range start step stop pos =>
    .recordCase "Range" [("start", start.toDatum),
      ("step", match step with
        | none => .absent
        | some step => .present step.toDatum),
      ("stop", stop.toDatum), ("pos", pos.toDatum)]
  | .lastIndex pos => .case "End" pos.toDatum []
  | .unary operator operand pos =>
    .case "Unary" (.atom operator.name) [operand.toDatum, pos.toDatum]
  | .binary left operator right pos =>
    .case "Binary" left.toDatum [.atom operator.name, right.toDatum, pos.toDatum]
  | .matrix rows pos => .case "Matrix" (.list (rowsToData rows)) [pos.toDatum]
  | .cell rows pos => .case "CellArray" (.list (rowsToData rows)) [pos.toDatum]
  | .call call => .case "FuncCall" call.toDatum []
  | .flatten object args pos =>
    .case "ArrayRef" object.toDatum [.list (exprsToData args), pos.toDatum]
  | .cellIndex object args pos =>
    .case "CellArrayRef" object.toDatum [.list (exprsToData args), pos.toDatum]
  | .member object field pos => .case "GetField" object.toDatum [field.toDatum, pos.toDatum]
  | .transpose operand marks pos =>
    .case "Transpose" operand.toDatum [.text marks, pos.toDatum]
  | .lambda params body pos =>
    .recordCase "Lambda" [("params", .list (params.map Param.toDatum)), ("body", body.toDatum),
      ("pos", pos.toDatum)]
  | .handle function pos => .case "FuncHandle" function.toDatum [pos.toDatum]
  | .parens inner pos => .case "Parens" inner.toDatum [pos.toDatum]

/-- The data of some expressions. -/
def exprsToData : List Expr → List Datum
  | [] => []
  | expr :: exprs => expr.toDatum :: exprsToData exprs

/-- The data of the rows of a literal. -/
def rowsToData : List (List Expr) → List Datum
  | [] => []
  | row :: rows => .list (exprsToData row) :: rowsToData rows

/-- The datum of a field. -/
def Field.toDatum : Field → Datum
  | .named name => .case "Name" name.toDatum []
  | .dynamic name => .case "Dynamic" name.toDatum []

/-- The datum of a call. -/
def Call.toDatum : Call → Datum
  | .mk callee args outputs pos =>
    .record "FuncCall" [("callee", callee.toDatum), ("args", .list (exprsToData args)),
      ("ret", match outputs with
        | none => .absent
        | some targets => .present (.list (targetsToData targets))),
      ("pos", pos.toDatum)]

/-- The datum of a target. -/
def Target.toDatum : Target → Datum
  | .var name => .case "Var" name.toDatum []
  | .field object field => .case "Field" object.toDatum [field.toDatum]
  | .cellIndex object args => .case "CellIndex" object.toDatum [.list (exprsToData args)]
  | .index object args => .case "Index" object.toDatum [.list (exprsToData args)]

/-- The data of some targets. -/
def targetsToData : List Target → List Datum
  | [] => []
  | target :: targets => target.toDatum :: targetsToData targets

end

/-- The datum of the head of a function. -/
def Header.toDatum (head : Header) : Datum :=
  .record "FuncDecl" [("name", head.name.toDatum), ("params", .list (head.params.map Param.toDatum)),
    ("returns", .list (head.outputs.map Ident.toDatum)), ("use_nargin", .truth head.usesNargin),
    ("pos", head.pos.toDatum)]

mutual

/-- The datum of a statement. -/
def Stmt.toDatum : Stmt → Datum
  | .assign target value pos =>
    .recordCase "Let" [("target", target.toDatum), ("value", value.toDatum), ("pos", pos.toDatum)]
  | .eval expr pos => .case "ExprStmt" expr.toDatum [pos.toDatum]
  | .call call => .case "Call" call.toDatum []
  | .branch conditional => .case "If" conditional.toDatum []
  | .whileLoop condition body pos =>
    .recordCase "While" [("cond", condition.toDatum), ("body", .list (stmtsToData body)),
      ("pos", pos.toDatum)]
  | .forLoop var range body pos =>
    .recordCase "For" [("var", var.toDatum), ("expr", range.toDatum),
      ("body", .list (stmtsToData body)), ("pos", pos.toDatum)]
  | .tryCatch body handler pos =>
    .recordCase "TryCatch" [("try_body", .list (stmtsToData body)),
      ("catch_body", .list (stmtsToData handler)), ("pos", pos.toDatum)]
  | .leave outputs pos => .case "Return" (.list (outputs.map Ident.toDatum)) [pos.toDatum]
  | .breakLoop pos => .case "Break" pos.toDatum []
  | .continueLoop pos => .case "Continue" pos.toDatum []
  | .global names pos => .case "Global" (.list (names.map Ident.toDatum)) [pos.toDatum]
  | .function function => .case "Function" function.toDatum []

/-- The data of some statements. -/
def stmtsToData : List Stmt → List Datum
  | [] => []
  | stmt :: stmts => stmt.toDatum :: stmtsToData stmts

/-- The datum of a condition with its body. -/
def Conditional.toDatum : Conditional → Datum
  | .mk condition body otherwise pos =>
    .record "IfStmt" [("cond", condition.toDatum), ("then_body", .list (stmtsToData body)),
      ("else_branch", otherwise.toDatum), ("pos", pos.toDatum)]

/-- The datum of what runs when a condition fails. -/
def Else.toDatum : Else → Datum
  | .block body => .case "Block" (.list (stmtsToData body)) []
  | .branch conditional => .case "If" conditional.toDatum []

/-- The datum of a function. -/
def Function.toDatum : Function → Datum
  | .mk head body =>
    .record "Function" [("head", head.toDatum), ("body", .list (stmtsToData body))]

end

/-- The datum of a program. -/
def Program.toDatum (program : Program) : Datum :=
  .record "Program" [("body", .list (stmtsToData program.body))]

/-- The datum of an optional value. -/
def Datum.ofOption {α : Type} (toDatum : α → Datum) : Option α → Datum
  | none => .absent
  | some value => .present (toDatum value)

/-- The datum of a report. -/
def SyntaxReport.toDatum (report : SyntaxReport) : Datum :=
  .record "SyntaxError" [("message", .text report.message),
    ("found", .ofOption Token.toDatum report.found),
    ("expected", .ofOption Datum.text report.expected), ("position", report.pos.toDatum)]

/-- The datum of a failure. -/
def Failure.toDatum : Failure → Datum
  | .syntaxFault complaint found pos =>
    .case "Syntax" (report complaint found pos).toDatum []
  | .invalidTarget flaw pos =>
    .recordCase "InvalidTarget" [("message", .text flaw.message), ("position", pos.toDatum)]

end MatlabFront
