import MatlabFront.Json.Record
import MatlabFront.Tree
import MatlabFront.Token

/-!
# Trees from JSON

Reads the JSON value of each kind of node, the form in which `toDatum` and `Datum.toJson` write it.
Records may also be arrays of their fields, unknown members are ignored, and an option may be left
out. The readers of nested nodes go down as many levels as they are given, and a node never lies
deeper than its JSON value.
-/

namespace MatlabFront

open Json (required optional)

/-- Reads a position. -/
def Position.ofJson? (json : Json) : Option Position := do
  match ← json.fields? [required "line", required "offset"] with
  | [line, offset] => return ⟨← line.natural?, ← offset.natural?⟩
  | _ => none

/-- Reads the kind of a token. -/
def Kind.ofJson? (json : Json) : Option Kind := do Kind.ofName? (← json.atom?)

/-- Reads a token. -/
def Token.ofJson? (json : Json) : Option Token := do
  match ← json.fields? [required "kind", required "text", required "line", required "offset"] with
  | [kind, text, line, offset] =>
    return ⟨← Kind.ofJson? kind, ← text.text?, ⟨← line.natural?, ← offset.natural?⟩⟩
  | _ => none

/-- Reads a name. -/
def Ident.ofJson? (json : Json) : Option Ident := do
  match ← json.fields? [required "name", required "pos"] with
  | [name, pos] => return ⟨← name.text?, ← Position.ofJson? pos⟩
  | _ => none

/-- Reads a parameter. -/
def Param.ofJson? (json : Json) : Option Param := do
  match ← json.fields? [required "name", required "pos"] with
  | [name, pos] => return ⟨← name.text?, ← Position.ofJson? pos⟩
  | _ => none

/-- Reads a binary operator. -/
def BinaryOperator.ofJson? (json : Json) : Option BinaryOperator := do
  BinaryOperator.ofName? (← json.atom?)

/-- Reads a unary operator. -/
def UnaryOperator.ofJson? (json : Json) : Option UnaryOperator := do
  UnaryOperator.ofName? (← json.atom?)

mutual

/-- Reads an expression that is at most some levels deep. -/
def Expr.read (levels : Nat) (json : Json) : Option Expr :=
  match levels with
  | 0 => none
  | levels + 1 =>
    match json.case? with
    | some (name, some content) =>
      if name = "Ident" then do return .ident (← Ident.ofJson? content)
      else if name = "Number" then do
        match ← content.contents? with
        | [text, pos] => return .number (← text.text?) (← Position.ofJson? pos)
        | _ => none
      else if name = "String" then do
        match ← content.contents? with
        | [value, pos] => return .string (← value.text?) (← Position.ofJson? pos)
        | _ => none
      else if name = "Colon" then do return .colon (← Position.ofJson? content)
      else if name = "Range" then do
        match ← content.fields? [required "start", optional "step", required "stop",
          required "pos"] with
        | [start, step, stop, pos] =>
          return .range (← Expr.read levels start) (← step.option? (Expr.read levels))
            (← Expr.read levels stop) (← Position.ofJson? pos)
        | _ => none
      else if name = "End" then do return .lastIndex (← Position.ofJson? content)
      else if name = "Unary" then do
        match ← content.contents? with
        | [operator, operand, pos] =>
          return .unary (← UnaryOperator.ofJson? operator) (← Expr.read levels operand)
            (← Position.ofJson? pos)
        | _ => none
      else if name = "Binary" then do
        match ← content.contents? with
        | [left, operator, right, pos] =>
          return .binary (← Expr.read levels left) (← BinaryOperator.ofJson? operator)
            (← Expr.read levels right) (← Position.ofJson? pos)
        | _ => none
      else if name = "Matrix" then do
        match ← content.contents? with
        | [rows, pos] =>
          return .matrix (← rows.list? (Json.list? (Expr.read levels))) (← Position.ofJson? pos)
        | _ => none
      else if name = "CellArray" then do
        match ← content.contents? with
        | [rows, pos] =>
          return .cell (← rows.list? (Json.list? (Expr.read levels))) (← Position.ofJson? pos)
        | _ => none
      else if name = "FuncCall" then do return .call (← Call.read levels content)
      else if name = "ArrayRef" then do
        match ← content.contents? with
        | [object, args, pos] =>
          return .flatten (← Expr.read levels object) (← args.list? (Expr.read levels))
            (← Position.ofJson? pos)
        | _ => none
      else if name = "CellArrayRef" then do
        match ← content.contents? with
        | [object, args, pos] =>
          return .cellIndex (← Expr.read levels object) (← args.list? (Expr.read levels))
            (← Position.ofJson? pos)
        | _ => none
      else if name = "GetField" then do
        match ← content.contents? with
        | [object, field, pos] =>
          return .member (← Expr.read levels object) (← Field.read levels field)
            (← Position.ofJson? pos)
        | _ => none
      else if name = "Transpose" then do
        match ← content.contents? with
        | [operand, marks, pos] =>
          return .transpose (← Expr.read levels operand) (← marks.text?) (← Position.ofJson? pos)
        | _ => none
      else if name = "Lambda" then do
        match ← content.fields? [required "params", required "body", required "pos"] with
        | [params, body, pos] =>
          return .lambda (← params.list? Param.ofJson?) (← Expr.read levels body)
            (← Position.ofJson? pos)
        | _ => none
      else if name = "FuncHandle" then do
        match ← content.contents? with
        | [function, pos] => return .handle (← Ident.ofJson? function) (← Position.ofJson? pos)
        | _ => none
      else if name = "Parens" then do
        match ← content.contents? with
        | [inner, pos] => return .parens (← Expr.read levels inner) (← Position.ofJson? pos)
        | _ => none
      else none
    | _ => none

/-- Reads a field that is at most some levels deep. -/
def Field.read (levels : Nat) (json : Json) : Option Field :=
  match levels with
  | 0 => none
  | levels + 1 =>
    match json.case? with
    | some (name, some content) =>
      if name = "Name" then do return .named (← Ident.ofJson? content)
      else if name = "Dynamic" then do return .dynamic (← Expr.read levels content)
      else none
    | _ => none

/-- Reads a call that is at most some levels deep. -/
def Call.read (levels : Nat) (json : Json) : Option Call :=
  match levels with
  | 0 => none
  | levels + 1 => do
    match ← json.fields? [required "callee", required "args", optional "ret", required "pos"] with
    | [callee, args, outputs, pos] =>
      return .mk (← Expr.read levels callee) (← args.list? (Expr.read levels))
        (← outputs.option? (Json.list? (Target.read levels))) (← Position.ofJson? pos)
    | _ => none

/-- Reads a target that is at most some levels deep. -/
def Target.read (levels : Nat) (json : Json) : Option Target :=
  match levels with
  | 0 => none
  | levels + 1 =>
    match json.case? with
    | some (name, some content) =>
      if name = "Var" then do return .var (← Ident.ofJson? content)
      else if name = "Field" then do
        match ← content.contents? with
        | [object, field] => return .field (← Expr.read levels object) (← Field.read levels field)
        | _ => none
      else if name = "CellIndex" then do
        match ← content.contents? with
        | [object, args] =>
          return .cellIndex (← Expr.read levels object) (← args.list? (Expr.read levels))
        | _ => none
      else if name = "Index" then do
        match ← content.contents? with
        | [object, args] =>
          return .index (← Expr.read levels object) (← args.list? (Expr.read levels))
        | _ => none
      else none
    | _ => none

end

/-- Reads the head of a function. -/
def Header.ofJson? (json : Json) : Option Header := do
  match ← json.fields? [required "name", required "params", required "returns",
    required "use_nargin", required "pos"] with
  | [name, params, outputs, usesNargin, pos] =>
    return ⟨← Ident.ofJson? name, ← params.list? Param.ofJson?, ← outputs.list? Ident.ofJson?,
      ← usesNargin.truth?, ← Position.ofJson? pos⟩
  | _ => none

mutual

/-- Reads a statement that is at most some levels deep. -/
def Stmt.read (levels : Nat) (json : Json) : Option Stmt :=
  match levels with
  | 0 => none
  | levels + 1 =>
    match json.case? with
    | some (name, some content) =>
      if name = "Let" then do
        match ← content.fields? [required "target", required "value", required "pos"] with
        | [target, value, pos] =>
          return .assign (← Target.read levels target) (← Expr.read levels value)
            (← Position.ofJson? pos)
        | _ => none
      else if name = "ExprStmt" then do
        match ← content.contents? with
        | [expr, pos] => return .eval (← Expr.read levels expr) (← Position.ofJson? pos)
        | _ => none
      else if name = "Call" then do return .call (← Call.read levels content)
      else if name = "If" then do return .branch (← Conditional.read levels content)
      else if name = "While" then do
        match ← content.fields? [required "cond", required "body", required "pos"] with
        | [condition, body, pos] =>
          return .whileLoop (← Expr.read levels condition) (← body.list? (Stmt.read levels))
            (← Position.ofJson? pos)
        | _ => none
      else if name = "For" then do
        match ← content.fields? [required "var", required "expr", required "body",
          required "pos"] with
        | [var, range, body, pos] =>
          return .forLoop (← Ident.ofJson? var) (← Expr.read levels range)
            (← body.list? (Stmt.read levels)) (← Position.ofJson? pos)
        | _ => none
      else if name = "TryCatch" then do
        match ← content.fields? [required "try_body", required "catch_body", required "pos"] with
        | [body, handler, pos] =>
          return .tryCatch (← body.list? (Stmt.read levels)) (← handler.list? (Stmt.read levels))
            (← Position.ofJson? pos)
        | _ => none
      else if name = "Return" then do
        match ← content.contents? with
        | [outputs, pos] => return .leave (← outputs.list? Ident.ofJson?) (← Position.ofJson? pos)
        | _ => none
      else if name = "Break" then do return .breakLoop (← Position.ofJson? content)
      else if name = "Continue" then do return .continueLoop (← Position.ofJson? content)
      else if name = "Global" then do
        match ← content.contents? with
        | [names, pos] => return .global (← names.list? Ident.ofJson?) (← Position.ofJson? pos)
        | _ => none
      else if name = "Function" then do return .function (← Function.read levels content)
      else none
    | _ => none

/-- Reads a condition with its body that is at most some levels deep. -/
def Conditional.read (levels : Nat) (json : Json) : Option Conditional :=
  match levels with
  | 0 => none
  | levels + 1 => do
    match ← json.fields? [required "cond", required "then_body", required "else_branch",
      required "pos"] with
    | [condition, body, otherwise, pos] =>
      return .mk (← Expr.read levels condition) (← body.list? (Stmt.read levels))
        (← Else.read levels otherwise) (← Position.ofJson? pos)
    | _ => none

/-- Reads what runs when a condition fails, at most some levels deep. -/
def Else.read (levels : Nat) (json : Json) : Option Else :=
  match levels with
  | 0 => none
  | levels + 1 =>
    match json.case? with
    | some (name, some content) =>
      if name = "Block" then do return .block (← content.list? (Stmt.read levels))
      else if name = "If" then do return .branch (← Conditional.read levels content)
      else none
    | _ => none

/-- Reads a function that is at most some levels deep. -/
def Function.read (levels : Nat) (json : Json) : Option Function :=
  match levels with
  | 0 => none
  | levels + 1 => do
    match ← json.fields? [required "head", required "body"] with
    | [head, body] => return .mk (← Header.ofJson? head) (← body.list? (Stmt.read levels))
    | _ => none

end

/-- Reads an expression. -/
def Expr.ofJson? (json : Json) : Option Expr := Expr.read (json.depth + 1) json

/-- Reads a program. -/
def Program.ofJson? (json : Json) : Option Program := do
  match ← json.fields? [required "body"] with
  | [body] => return ⟨← body.list? (Stmt.read (json.depth + 1))⟩
  | _ => none

end MatlabFront
