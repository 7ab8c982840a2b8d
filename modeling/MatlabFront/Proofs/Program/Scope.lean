import MatlabFront.Proofs.Program.Command
import MatlabFront.Proofs.Program.Grammar

/-!
# What the body of a function notes

Statements leave the outputs of the enclosing function as they are, so every return in its body
carries the same ones. The use of `nargin` is noted exactly when one of the expressions that are
written in the body uses it; the subject of a switch counts even where the tree drops it.
-/

namespace MatlabFront

/-- Skipping separators stays in the same function. -/
@[simp] theorem State.skipSeparators_scope (s : State) : s.skipSeparators.scope = s.scope := rfl

/-- A report stays in the same function. -/
@[simp] theorem State.log_scope (s : State) (event : Event) : (s.log event).scope = s.scope := rfl

/-- Resynchronising stays in the same function. -/
@[simp] theorem State.resume_scope (s : State) : s.resume.scope = s.scope := by
  unfold State.resume
  split <;> rfl

/-- Behind a function there is no scope. -/
@[simp] theorem State.leave_scope (s : State) : s.leave.scope = none := by
  unfold State.leave
  dsimp only
  split <;> rfl

/-- Going over a token keeps the outputs in scope. -/
@[simp] theorem State.next_outputs (s : State) : s.next.outputs = s.outputs := rfl

/-- Skipping separators keeps the outputs in scope. -/
@[simp] theorem State.skipSeparators_outputs (s : State) :
    s.skipSeparators.outputs = s.outputs := rfl

/-- What is noted keeps the outputs of the function. -/
theorem State.Notes.outputs {s final : State} {used : Prop} (notes : s.Notes used final) :
    final.outputs = s.outputs := by
  unfold State.Notes at notes
  unfold State.outputs
  generalize s.scope = before at *
  generalize final.scope = after at *
  cases notes <;> rfl

/-- From inside a function in which nothing was noted, what is noted is what was used. -/
theorem State.Notes.usesNargin {s final : State} {used : Prop} {outputs : List Ident}
    (fresh : s.scope = some ⟨outputs, false⟩) (notes : s.Notes used final) :
    final.scope = some ⟨outputs, final.usesNargin⟩ ∧ (final.usesNargin = true ↔ used) := by
  unfold State.Notes at notes
  unfold State.usesNargin
  rw [fresh] at notes
  generalize final.scope = after at *
  cases notes with
  | inside same => simpa using same

namespace Surface

variable {dialect : Dialect} {s final : State}

/-- What is read over behind a condition stays in the same function. -/
theorem Separated.scope (separated : Separated dialect s final) : final.scope = s.scope := by
  cases separated with
  | separator => rfl
  | resumed => exact s.resume_scope

/-- What is noted of a switch stays in the same function. -/
@[simp] theorem Cases.logged_scope (s : State) (cases : Cases) :
    (cases.logged s).scope = s.scope := by
  unfold Cases.logged
  split <;> rfl

/-- Names that are read are noted as used. -/
theorem Names.noted {names : List Ident} (reads : Names names s final) :
    s.Notes (∃ name ∈ names, (Expr.ident name).Uses "nargin") final := by
  induction reads with
  | stop => exact .of_scope_eq rfl (by simp)
  | @name names token s s₁ _ _ _ ih =>
    refine (((State.Notes.note s.next token.text).behind rfl).trans ih).congr ?_
    simp [Expr.uses_ident, Parser.declared]

/-- The header of a `for` notes its variable and the names in its range. -/
theorem ForHead.noted {var : Ident} {range : Expr} (reads : ForHead var range s final) :
    s.Notes ((Expr.ident var).Uses "nargin" ∨ range.Uses "nargin") final := by
  cases reads with
  | @mk token _ _ _ _ named _ expression =>
    have first := (State.Notes.note s.next token.text).behind (s := s) rfl
    have later := State.Notes.behind expression.noted rfl
    refine (first.trans later).congr ?_
    rw [named, Expr.uses_ident, Parser.declared]

/-- The head of a function carries the position of its keyword. -/
theorem Head.pos {pos : Position} {head : Header} (reads : Head pos head s final) :
    head.pos = pos := by
  cases reads
  rfl

/-- A call uses the names of what is called, of its arguments and of its outputs. -/
theorem uses_call {name : String} {callee : Expr} {args : List Expr}
    {outputs : Option (List Target)} {pos : Position} :
    (Expr.call (.mk callee args outputs pos)).Uses name ↔
      callee.Uses name ∨ (∃ arg ∈ args, arg.Uses name) ∨
        ∃ target ∈ outputs.getD [], target.expr.Uses name :=
  (Expr.uses_iff_parts (by simp)).trans
    (by simp [Expr.parts, or_and_right, exists_or])

/-- A reference to all elements uses the names of its object and of its arguments. -/
theorem uses_flatten {name : String} {object : Expr} {args : List Expr} {pos : Position} :
    (Expr.flatten object args pos).Uses name ↔
      object.Uses name ∨ ∃ arg ∈ args, arg.Uses name :=
  (Expr.uses_iff_parts (by simp)).trans (by simp [Expr.parts])

/-- The expression of a target uses the names of the expression that was read. -/
theorem uses_of_target {name : String} {expr : Expr} {target : Target}
    (read : Target.ofExpr? expr = some target) : target.expr.Uses name ↔ expr.Uses name := by
  cases expr with
  | ident | member | cellIndex =>
    obtain rfl := Option.some.inj read
    first
    | rfl
    | rw [Target.expr, Expr.uses_iff_parts (by simp), Expr.uses_iff_parts (by simp)]
      rfl
  | flatten object args =>
    obtain rfl := Option.some.inj read
    rw [Target.expr, Expr.uses_apply, uses_flatten]
  | call call =>
    obtain ⟨callee, args, outputs, pos⟩ := call
    cases outputs with
    | some => cases read
    | none =>
      obtain rfl := Option.some.inj read
      rw [Target.expr, Expr.uses_apply, uses_call]
      simp
  | number | string | colon | range | lastIndex | unary | binary | matrix | cell | transpose |
    lambda | handle | parens => cases read

/-- The targets of several expressions use the names of these. -/
theorem uses_of_targets {name : String} {row : List Expr} {targets : List Target}
    (read : row.map Target.ofExpr? = targets.map some) :
    (∃ target ∈ targets, target.expr.Uses name) ↔ ∃ expr ∈ row, expr.Uses name := by
  induction row generalizing targets with
  | nil =>
    obtain rfl : targets = [] := by simpa using read.symm
    simp
  | cons expr row ih =>
    cases targets with
    | nil => simp at read
    | cons target targets =>
      obtain ⟨first, later⟩ := List.cons_eq_cons.mp read
      simp only [List.mem_cons, exists_eq_or_imp, uses_of_target first, ih later]

/-- An assignment uses the names of both of its sides. -/
theorem Assigns.uses {name : String} {pos : Position} {left value : Expr} {written : Statement}
    (assigns : Assigns pos left value written) :
    (∃ expr ∈ written.exprs, expr.Uses name) ↔ left.Uses name ∨ value.Uses name := by
  have row (row : List Expr) (start : Position) :
      (Expr.matrix [row] start).Uses name ↔ ∃ expr ∈ row, expr.Uses name := by
    rw [Expr.uses_iff_parts (by simp)]
    simp [Expr.parts]
  cases assigns with
  | one target => simp [Statement.exprs, uses_of_target target]
  | name _ same =>
    simp only [Statement.exprs, List.mem_singleton, exists_eq_left, uses_call, Option.getD_some,
      uses_of_targets same, row, List.not_mem_nil, false_and, exists_false, false_or]
    exact or_comm
  | call _ same =>
    simp only [Statement.exprs, List.mem_singleton, exists_eq_left, uses_call, Option.getD_some,
      uses_of_targets same, row, Option.getD_none, List.not_mem_nil, false_and, exists_false,
      or_false]
    rw [← or_assoc]
    exact or_comm

/-- The expressions that are written in a part of a program. -/
def Part.exprs : Part → List Expr
  | .block _ body => exprsAll body
  | .statement written | .openStatement written => written.exprs
  | .tail written => written.exprs
  | .cases written => written.exprs
  | .items written => written.flatMap Item.exprs

/-- What the statements of a function note while they are read. -/
def Part.Noted (s final : State) : Part → Prop
  | .items _ => True
  | part => s.Notes (∃ expr ∈ part.exprs, expr.Uses "nargin") final

/-- Statements note the uses of `nargin` that are written in them. -/
theorem Reads.noted {part : Part} (reads : Reads dialect part s final) : part.Noted s final := by
  induction reads with
  | blockEnd => exact .of_scope_eq rfl (by simp [Part.exprs, exprsAll])
  | block _ _ _ _ _ head tail =>
    refine ((State.Notes.behind head rfl).trans tail).congr ?_
    simp [Part.exprs, exprsAll, or_and_right, exists_or]
  | statement _ _ head => exact head
  | eval _ _ expression =>
    refine State.Notes.congr (s := _) expression.noted ?_
    simp [Part.exprs, Statement.exprs]
  | assign _ _ left _ _ value assigns =>
    have before := State.Notes.behind value.noted (s := _) rfl
    refine (State.Notes.trans left.noted before).congr ?_
    simp only [Part.exprs, assigns.uses]
  | command _ _ _ run =>
    obtain ⟨call, same, -, noted⟩ := Parser.command_done run
    obtain ⟨rfl⟩ := same
    exact noted.congr (by simp [Part.exprs, Statement.exprs])
  | branch _ _ condition separated _ _ _ body tail =>
    have head := State.Notes.before condition.noted separated.scope
    refine ((head.trans body).trans tail).behind rfl |>.before rfl |>.congr ?_
    simp [Part.exprs, Statement.exprs, or_and_right, exists_or, or_assoc]
  | whileLoop _ _ condition _ _ _ body =>
    refine (State.Notes.trans condition.noted body).behind rfl |>.before rfl |>.congr ?_
    simp [Part.exprs, Statement.exprs, or_and_right, exists_or]
  | forLoop _ _ _ head _ _ _ body =>
    refine (head.noted.trans body).behind rfl |>.before rfl |>.congr ?_
    simp [Part.exprs, Statement.exprs, or_and_right, exists_or, or_assoc]
  | forEnclosed _ _ _ head _ _ _ _ body =>
    refine (head.noted.trans (State.Notes.behind body rfl)).behind rfl |>.before rfl |>.congr ?_
    simp [Part.exprs, Statement.exprs, or_and_right, exists_or, or_assoc]
  | switch _ subject _ _ _ cases =>
    refine (State.Notes.trans subject.noted cases).behind rfl |>.before (by simp) |>.congr ?_
    simp [Part.exprs, Statement.exprs, or_and_right, exists_or]
  | tryOnly _ _ _ _ body =>
    refine (State.Notes.behind body rfl).before rfl |>.congr ?_
    simp [Part.exprs, Statement.exprs, exprsAll]
  | tryCatch _ _ _ _ _ _ body handler =>
    refine (State.Notes.trans body (State.Notes.behind handler rfl)).behind rfl |>.before rfl
      |>.congr ?_
    simp [Part.exprs, Statement.exprs, or_and_right, exists_or]
  | global _ _ names =>
    refine (State.Notes.behind names.noted rfl).congr ?_
    simp [Part.exprs, Statement.exprs]
  | breakLoop | continueLoop | leave =>
    exact .of_scope_eq rfl (by simp [Part.exprs, Statement.exprs])
  | noTail => exact .of_scope_eq rfl (by simp [Part.exprs, Tail.exprs])
  | otherwiseTail _ _ body => exact State.Notes.behind body rfl
  | branchTail _ _ condition _ _ _ body tail =>
    refine ((State.Notes.trans condition.noted body).trans tail).behind rfl |>.congr ?_
    simp [Part.exprs, Tail.exprs, or_and_right, exists_or, or_assoc]
  | noCases => exact .of_scope_eq rfl (by simp [Part.exprs, Cases.exprs])
  | otherwiseCases _ _ body => exact State.Notes.behind body rfl
  | caseCases _ _ value _ _ _ body cases =>
    refine ((State.Notes.trans value.noted body).trans cases).behind rfl |>.congr ?_
    simp [Part.exprs, Cases.exprs, or_and_right, exists_or, or_assoc]
  | noItems | item | function => trivial

end Surface

end MatlabFront
