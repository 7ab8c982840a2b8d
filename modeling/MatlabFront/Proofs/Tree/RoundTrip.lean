import Mathlib.Tactic.Common
import MatlabFront.Tree.Datum
import MatlabFront.Tree.OfJson

/-!
# Trees survive their JSON value

Reading the JSON value that is written for a tree gives back the tree. A reader goes down as many
levels as it is given, so the lemma about each kind of node asks for more levels than the JSON value
of the node is deep. A program is read with as many levels as its own JSON value has, and one more.
-/

namespace MatlabFront

namespace Json

/-- Fields are read by name behind members of other names, whatever these are. -/
theorem mapM_field?_append (front fields : List (String × Json)) (names : List FieldName)
    (named : names.map FieldName.name = fields.map Prod.fst)
    (distinct : ((front ++ fields).map Prod.fst).Nodup) :
    names.mapM (field? (front ++ fields)) = some (fields.map Prod.snd) := by
  induction fields generalizing front names with
  | nil =>
    have none_left : names = [] := by simpa using named
    simp [none_left]
  | cons member fields ih =>
    cases names with
    | nil => simp at named
    | cons name names =>
      simp only [List.map_cons, List.cons.injEq] at named
      have unnamed : front.lookup member.1 = none := by
        rw [List.map_append, List.nodup_append] at distinct
        rw [List.lookup_eq_none_iff]
        intro earlier mem
        have apart := distinct.2.2 _ (List.mem_map_of_mem mem) member.1 (by simp)
        simpa using apart.symm
      have found : (front ++ member :: fields).lookup name.name = some member.2 := by
        rw [named.1, List.lookup_append, unnamed, Option.none_or, List.lookup_cons,
          beq_self_eq_true]
      have behind := ih (front ++ [member]) names named.2 (by simpa using distinct)
      rw [List.append_assoc, List.singleton_append] at behind
      simp [field?, member?, found, behind]

/-- A record that is written with its fields in order is read with their values in order. -/
theorem fields?_object (fields : List (String × Json)) (names : List FieldName)
    (named : names.map FieldName.name = fields.map Prod.fst)
    (distinct : (fields.map Prod.fst).Nodup) :
    fields? names (.object fields) = some (fields.map Prod.snd) :=
  mapM_field?_append [] fields names named distinct

/-- An empty list is read. -/
@[simp]
theorem list?_nil {α : Type} (read : Json → Option α) : list? read (.array []) = some [] := by
  simp [list?]

/-- A list is read from its first item on. -/
theorem list?_cons {α : Type} {read : Json → Option α} {item : Json} {items : List Json}
    {value : α} {values : List α} (first : read item = some value)
    (others : list? read (.array items) = some values) :
    list? read (.array (item :: items)) = some (value :: values) := by
  have others : items.mapM read = some values := others
  simp [list?, first, others]

/-- A list is read back when each of its values is. -/
@[simp]
theorem list?_written {α : Type} {read : Json → Option α} {toDatum : α → Datum}
    (back : ∀ value, read (toDatum value).toJson = some value) (values : List α) :
    list? read (.array (Datum.itemsToJson (values.map toDatum))) = some values := by
  induction values with
  | nil => simp [Datum.itemsToJson]
  | cons value values ih => exact list?_cons (back value) ih

/-- A value that is not read from `null` is read as an option that is there. -/
theorem option?_some {α : Type} {read : Json → Option α} {json : Json} {value : α}
    (here : read json = some value) (absent : read .null = none) :
    option? read json = some (some value) := by
  cases json with
  | null => rw [absent] at here; cases here
  | _ => simp [option?, here]

end Json

section Nodes

attribute [local simp] Datum.toJson Datum.itemsToJson Datum.fieldsToJson Json.depth
  Json.depthOfItems Json.depthOfMembers Json.case? Json.contents? Json.text? Json.fields?_object
  Json.required Json.optional

/-- A position is read back. -/
@[simp]
theorem Position.ofJson?_toJson (pos : Position) :
    Position.ofJson? pos.toDatum.toJson = some pos := by
  simp [Position.ofJson?, Position.toDatum, Json.natural?]

/-- A name is read back. -/
@[simp]
theorem Ident.ofJson?_toJson (ident : Ident) : Ident.ofJson? ident.toDatum.toJson = some ident := by
  simp [Ident.ofJson?, Ident.toDatum]

/-- A parameter is read back. -/
@[simp]
theorem Param.ofJson?_toJson (param : Param) : Param.ofJson? param.toDatum.toJson = some param := by
  simp [Param.ofJson?, Param.toDatum]

/-- A binary operator is read back from its name. -/
@[simp]
theorem BinaryOperator.ofJson?_name (operator : BinaryOperator) :
    BinaryOperator.ofJson? (.string operator.name) = some operator := by
  simp [BinaryOperator.ofJson?, Json.atom?, BinaryOperator.ofName?_name]

/-- A unary operator is read back from its name. -/
@[simp]
theorem UnaryOperator.ofJson?_name (operator : UnaryOperator) :
    UnaryOperator.ofJson? (.string operator.name) = some operator := by
  simp [UnaryOperator.ofJson?, Json.atom?, UnaryOperator.ofName?_name]

/-- No expression is read from `null`, so an absent step is told from any step. -/
theorem Expr.read_null (levels : Nat) : Expr.read levels .null = none := by
  cases levels <;> simp [Expr.read]

mutual

/-- An expression is read back with more levels than its JSON value is deep. -/
theorem Expr.read_toJson : (levels : Nat) → (expr : Expr) →
    expr.toDatum.toJson.depth < levels → Expr.read levels expr.toDatum.toJson = some expr
  | levels + 1, .ident ident, _ => by simp [Expr.toDatum, Expr.read]
  | levels + 1, .number text pos, _ => by simp [Expr.toDatum, Expr.read]
  | levels + 1, .string value pos, _ => by simp [Expr.toDatum, Expr.read]
  | levels + 1, .colon pos, _ => by simp [Expr.toDatum, Expr.read]
  | levels + 1, .range start none stop pos, deep => by
    simp [Expr.toDatum] at deep
    have first := Expr.read_toJson levels start (by omega)
    have last := Expr.read_toJson levels stop (by omega)
    simp [Expr.toDatum, Expr.read, first, last, Json.option?]
  | levels + 1, .range start (some step) stop pos, deep => by
    simp [Expr.toDatum] at deep
    have first := Expr.read_toJson levels start (by omega)
    have between :=
      Json.option?_some (Expr.read_toJson levels step (by omega)) (Expr.read_null levels)
    have last := Expr.read_toJson levels stop (by omega)
    simp [Expr.toDatum, Expr.read, first, between, last]
  | levels + 1, .lastIndex pos, _ => by simp [Expr.toDatum, Expr.read]
  | levels + 1, .unary operator operand pos, deep => by
    simp [Expr.toDatum] at deep
    have inner := Expr.read_toJson levels operand (by omega)
    simp [Expr.toDatum, Expr.read, inner]
  | levels + 1, .binary left operator right pos, deep => by
    simp [Expr.toDatum] at deep
    have before := Expr.read_toJson levels left (by omega)
    have behind := Expr.read_toJson levels right (by omega)
    simp [Expr.toDatum, Expr.read, before, behind]
  | levels + 1, .matrix rows pos, deep => by
    simp [Expr.toDatum] at deep
    have parts := rows_read_toJson levels rows (by omega)
    simp [Expr.toDatum, Expr.read, parts]
  | levels + 1, .cell rows pos, deep => by
    simp [Expr.toDatum] at deep
    have parts := rows_read_toJson levels rows (by omega)
    simp [Expr.toDatum, Expr.read, parts]
  | levels + 1, .call call, deep => by
    simp [Expr.toDatum] at deep
    have inner := Call.read_toJson levels call (by omega)
    simp [Expr.toDatum, Expr.read, inner]
  | levels + 1, .flatten object args pos, deep => by
    simp [Expr.toDatum] at deep
    have inner := Expr.read_toJson levels object (by omega)
    have parts := exprs_read_toJson levels args (by omega)
    simp [Expr.toDatum, Expr.read, inner, parts]
  | levels + 1, .cellIndex object args pos, deep => by
    simp [Expr.toDatum] at deep
    have inner := Expr.read_toJson levels object (by omega)
    have parts := exprs_read_toJson levels args (by omega)
    simp [Expr.toDatum, Expr.read, inner, parts]
  | levels + 1, .member object field pos, deep => by
    simp [Expr.toDatum] at deep
    have inner := Expr.read_toJson levels object (by omega)
    have name := Field.read_toJson levels field (by omega)
    simp [Expr.toDatum, Expr.read, inner, name]
  | levels + 1, .transpose operand marks pos, deep => by
    simp [Expr.toDatum] at deep
    have inner := Expr.read_toJson levels operand (by omega)
    simp [Expr.toDatum, Expr.read, inner]
  | levels + 1, .lambda params body pos, deep => by
    simp [Expr.toDatum] at deep
    have inner := Expr.read_toJson levels body (by omega)
    simp [Expr.toDatum, Expr.read, inner]
  | levels + 1, .handle function pos, _ => by simp [Expr.toDatum, Expr.read]
  | levels + 1, .parens inner pos, deep => by
    simp [Expr.toDatum] at deep
    have inside := Expr.read_toJson levels inner (by omega)
    simp [Expr.toDatum, Expr.read, inside]

/-- Expressions are read back with more levels than the JSON value of each is deep. -/
theorem exprs_read_toJson : (levels : Nat) → (exprs : List Expr) →
    Json.depthOfItems (Datum.itemsToJson (exprsToData exprs)) < levels →
      Json.list? (Expr.read levels) (.array (Datum.itemsToJson (exprsToData exprs))) = some exprs
  | _, [], _ => by simp [exprsToData]
  | levels, expr :: exprs, deep => by
    simp [exprsToData] at deep
    exact Json.list?_cons (Expr.read_toJson levels expr (by omega))
      (exprs_read_toJson levels exprs (by omega))

/-- Rows are read back with more levels than the JSON value of each is deep. -/
theorem rows_read_toJson : (levels : Nat) → (rows : List (List Expr)) →
    Json.depthOfItems (Datum.itemsToJson (rowsToData rows)) < levels →
      Json.list? (Json.list? (Expr.read levels)) (.array (Datum.itemsToJson (rowsToData rows)))
        = some rows
  | _, [], _ => by simp [rowsToData]
  | levels, row :: rows, deep => by
    simp [rowsToData] at deep
    exact Json.list?_cons (exprs_read_toJson levels row (by omega))
      (rows_read_toJson levels rows (by omega))

/-- A field is read back with more levels than its JSON value is deep. -/
theorem Field.read_toJson : (levels : Nat) → (field : Field) →
    field.toDatum.toJson.depth < levels → Field.read levels field.toDatum.toJson = some field
  | levels + 1, .named name, _ => by simp [Field.toDatum, Field.read]
  | levels + 1, .dynamic name, deep => by
    simp [Field.toDatum] at deep
    have inner := Expr.read_toJson levels name (by omega)
    simp [Field.toDatum, Field.read, inner]

/-- A call is read back with more levels than its JSON value is deep. -/
theorem Call.read_toJson : (levels : Nat) → (call : Call) →
    call.toDatum.toJson.depth < levels → Call.read levels call.toDatum.toJson = some call
  | levels + 1, .mk callee args none pos, deep => by
    simp [Call.toDatum] at deep
    have called := Expr.read_toJson levels callee (by omega)
    have parts := exprs_read_toJson levels args (by omega)
    simp [Call.toDatum, Call.read, called, parts, Json.option?]
  | levels + 1, .mk callee args (some targets) pos, deep => by
    simp [Call.toDatum] at deep
    have called := Expr.read_toJson levels callee (by omega)
    have parts := exprs_read_toJson levels args (by omega)
    have outputs := targets_read_toJson levels targets (by omega)
    simp [Call.toDatum, Call.read, called, parts, outputs, Json.option?]

/-- A target is read back with more levels than its JSON value is deep. -/
theorem Target.read_toJson : (levels : Nat) → (target : Target) →
    target.toDatum.toJson.depth < levels → Target.read levels target.toDatum.toJson = some target
  | levels + 1, .var name, _ => by simp [Target.toDatum, Target.read]
  | levels + 1, .field object field, deep => by
    simp [Target.toDatum] at deep
    have inner := Expr.read_toJson levels object (by omega)
    have name := Field.read_toJson levels field (by omega)
    simp [Target.toDatum, Target.read, inner, name]
  | levels + 1, .cellIndex object args, deep => by
    simp [Target.toDatum] at deep
    have inner := Expr.read_toJson levels object (by omega)
    have parts := exprs_read_toJson levels args (by omega)
    simp [Target.toDatum, Target.read, inner, parts]
  | levels + 1, .index object args, deep => by
    simp [Target.toDatum] at deep
    have inner := Expr.read_toJson levels object (by omega)
    have parts := exprs_read_toJson levels args (by omega)
    simp [Target.toDatum, Target.read, inner, parts]

/-- Targets are read back with more levels than the JSON value of each is deep. -/
theorem targets_read_toJson : (levels : Nat) → (targets : List Target) →
    Json.depthOfItems (Datum.itemsToJson (targetsToData targets)) < levels →
      Json.list? (Target.read levels) (.array (Datum.itemsToJson (targetsToData targets)))
        = some targets
  | _, [], _ => by simp [targetsToData]
  | levels, target :: targets, deep => by
    simp [targetsToData] at deep
    exact Json.list?_cons (Target.read_toJson levels target (by omega))
      (targets_read_toJson levels targets (by omega))

end

/-- The head of a function is read back. -/
@[simp]
theorem Header.ofJson?_toJson (head : Header) : Header.ofJson? head.toDatum.toJson = some head := by
  simp [Header.ofJson?, Header.toDatum, Json.truth?]

mutual

/-- A statement is read back with more levels than its JSON value is deep. -/
theorem Stmt.read_toJson : (levels : Nat) → (stmt : Stmt) →
    stmt.toDatum.toJson.depth < levels → Stmt.read levels stmt.toDatum.toJson = some stmt
  | levels + 1, .assign target value pos, deep => by
    simp [Stmt.toDatum] at deep
    have left := Target.read_toJson levels target (by omega)
    have right := Expr.read_toJson levels value (by omega)
    simp [Stmt.toDatum, Stmt.read, left, right]
  | levels + 1, .eval expr pos, deep => by
    simp [Stmt.toDatum] at deep
    have inner := Expr.read_toJson levels expr (by omega)
    simp [Stmt.toDatum, Stmt.read, inner]
  | levels + 1, .call call, deep => by
    simp [Stmt.toDatum] at deep
    have inner := Call.read_toJson levels call (by omega)
    simp [Stmt.toDatum, Stmt.read, inner]
  | levels + 1, .branch conditional, deep => by
    simp [Stmt.toDatum] at deep
    have inner := Conditional.read_toJson levels conditional (by omega)
    simp [Stmt.toDatum, Stmt.read, inner]
  | levels + 1, .whileLoop condition body pos, deep => by
    simp [Stmt.toDatum] at deep
    have tested := Expr.read_toJson levels condition (by omega)
    have run := stmts_read_toJson levels body (by omega)
    simp [Stmt.toDatum, Stmt.read, tested, run]
  | levels + 1, .forLoop var range body pos, deep => by
    simp [Stmt.toDatum] at deep
    have ranged := Expr.read_toJson levels range (by omega)
    have run := stmts_read_toJson levels body (by omega)
    simp [Stmt.toDatum, Stmt.read, ranged, run]
  | levels + 1, .tryCatch body handler pos, deep => by
    simp [Stmt.toDatum] at deep
    have run := stmts_read_toJson levels body (by omega)
    have caught := stmts_read_toJson levels handler (by omega)
    simp [Stmt.toDatum, Stmt.read, run, caught]
  | levels + 1, .leave outputs pos, _ => by simp [Stmt.toDatum, Stmt.read]
  | levels + 1, .breakLoop pos, _ => by simp [Stmt.toDatum, Stmt.read]
  | levels + 1, .continueLoop pos, _ => by simp [Stmt.toDatum, Stmt.read]
  | levels + 1, .global names pos, _ => by simp [Stmt.toDatum, Stmt.read]
  | levels + 1, .function function, deep => by
    simp [Stmt.toDatum] at deep
    have inner := Function.read_toJson levels function (by omega)
    simp [Stmt.toDatum, Stmt.read, inner]

/-- Statements are read back with more levels than the JSON value of each is deep. -/
theorem stmts_read_toJson : (levels : Nat) → (stmts : List Stmt) →
    Json.depthOfItems (Datum.itemsToJson (stmtsToData stmts)) < levels →
      Json.list? (Stmt.read levels) (.array (Datum.itemsToJson (stmtsToData stmts))) = some stmts
  | _, [], _ => by simp [stmtsToData]
  | levels, stmt :: stmts, deep => by
    simp [stmtsToData] at deep
    exact Json.list?_cons (Stmt.read_toJson levels stmt (by omega))
      (stmts_read_toJson levels stmts (by omega))

/-- A condition with its body is read back with more levels than its JSON value is deep. -/
theorem Conditional.read_toJson : (levels : Nat) → (conditional : Conditional) →
    conditional.toDatum.toJson.depth < levels →
      Conditional.read levels conditional.toDatum.toJson = some conditional
  | levels + 1, .mk condition body otherwise pos, deep => by
    simp [Conditional.toDatum] at deep
    have tested := Expr.read_toJson levels condition (by omega)
    have run := stmts_read_toJson levels body (by omega)
    have failing := Else.read_toJson levels otherwise (by omega)
    simp [Conditional.toDatum, Conditional.read, tested, run, failing]

/-- What runs when a condition fails is read back with more levels than its JSON value is deep. -/
theorem Else.read_toJson : (levels : Nat) → (otherwise : Else) →
    otherwise.toDatum.toJson.depth < levels →
      Else.read levels otherwise.toDatum.toJson = some otherwise
  | levels + 1, .block body, deep => by
    simp [Else.toDatum] at deep
    have run := stmts_read_toJson levels body (by omega)
    simp [Else.toDatum, Else.read, run]
  | levels + 1, .branch conditional, deep => by
    simp [Else.toDatum] at deep
    have inner := Conditional.read_toJson levels conditional (by omega)
    simp [Else.toDatum, Else.read, inner]

/-- A function is read back with more levels than its JSON value is deep. -/
theorem Function.read_toJson : (levels : Nat) → (function : Function) →
    function.toDatum.toJson.depth < levels →
      Function.read levels function.toDatum.toJson = some function
  | levels + 1, .mk head body, deep => by
    simp [Function.toDatum] at deep
    have run := stmts_read_toJson levels body (by omega)
    simp [Function.toDatum, Function.read, run]

end

/-- The JSON value written for a program, whatever its tree, its texts and its positions, is read
back as this program. So what is read from any JSON value, in whatever form its records are written
there, survives being written and read once more. -/
theorem Program.read_back :
    (∀ program : Program, Program.ofJson? program.toDatum.toJson = some program) ∧
      ∀ (json : Json) (program : Program), Program.ofJson? json = some program →
        Program.ofJson? program.toDatum.toJson = some program := by
  have written : ∀ program : Program, Program.ofJson? program.toDatum.toJson = some program := by
    intro program
    have body := stmts_read_toJson (program.toDatum.toJson.depth + 1) program.body (by
      simp [Program.toDatum]
      omega)
    simp [Program.ofJson?, Program.toDatum] at body ⊢
    simp [body]
  exact ⟨written, fun _ program _ => written program⟩

end Nodes

/-- A range whose step is left out, with positions as arrays and a member that no record has, is
read, and what is read survives being written. -/
theorem Program.read_back_loose :
    Program.ofJson? (.object [("body", .array [.object [("ExprStmt", .array
      [.object [("Range", .object
        [("start", .object [("Number", .array [.string "1", .array [.natural 1, .natural 0]])]),
          ("stop", .object [("Number", .array [.string "2", .array [.natural 1, .natural 2]])]),
          ("note", .bool true), ("pos", .array [.natural 1, .natural 1])])],
        .array [.natural 1, .natural 1]])]])])
      = some ⟨[.eval (.range (.number "1" ⟨1, 0⟩) none (.number "2" ⟨1, 2⟩) ⟨1, 1⟩) ⟨1, 1⟩]⟩ ∧
    Program.ofJson? (Program.toDatum
        ⟨[.eval (.range (.number "1" ⟨1, 0⟩) none (.number "2" ⟨1, 2⟩) ⟨1, 1⟩) ⟨1, 1⟩]⟩).toJson
      = some ⟨[.eval (.range (.number "1" ⟨1, 0⟩) none (.number "2" ⟨1, 2⟩) ⟨1, 1⟩) ⟨1, 1⟩]⟩ :=
  (and_iff_left_of_imp (Program.read_back.2 _ _)).2 rfl

end MatlabFront
