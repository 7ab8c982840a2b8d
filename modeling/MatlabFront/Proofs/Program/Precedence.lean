import Mathlib
import MatlabFront.Proofs.Expression.WellGrouped
import MatlabFront.Proofs.Program.Sound

/-!
# Programs are grouped by precedence

Every expression that is written in an accepted program has the operands that the table of
precedence dictates, in every statement at any depth and in both dialects. The tree of the program
holds these expressions and, beside them, only the comparisons that stand for the cases of a switch.
-/

namespace MatlabFront

mutual

/-- The expressions in the tree of a statement. -/
def Stmt.exprs : Stmt → List Expr
  | .assign target value _ => [target.expr, value]
  | .eval expr _ => [expr]
  | .call call => [.call call]
  | .branch conditional => conditional.exprs
  | .whileLoop condition body _ => condition :: stmtExprs body
  | .forLoop _ range body _ => range :: stmtExprs body
  | .tryCatch body handler _ => stmtExprs body ++ stmtExprs handler
  | .leave _ _ | .breakLoop _ | .continueLoop _ | .global _ _ => []
  | .function function => function.exprs

/-- The expressions in the trees of some statements. -/
def stmtExprs : List Stmt → List Expr
  | [] => []
  | first :: body => first.exprs ++ stmtExprs body

/-- The expressions in a condition, in its body and in its alternative. -/
def Conditional.exprs : Conditional → List Expr
  | .mk condition body otherwise _ => condition :: stmtExprs body ++ otherwise.exprs

/-- The expressions in an alternative. -/
def Else.exprs : Else → List Expr
  | .block body => stmtExprs body
  | .branch conditional => conditional.exprs

/-- The expressions in the body of a function. -/
def Function.exprs : Function → List Expr
  | .mk _ body => stmtExprs body

end

/-- The expressions of a program. -/
def Program.exprs (program : Program) : List Expr := stmtExprs program.body

/-- Statements one behind the other hold the expressions of both. -/
theorem stmtExprs_append (first second : List Stmt) :
    stmtExprs (first ++ second) = stmtExprs first ++ stmtExprs second := by
  induction first with
  | nil => rfl
  | cons statement first ih => simp [stmtExprs, ih]

namespace Surface

/-- An expression is written, or compares a case of a switch with its subject. -/
def Origin (written : List Expr) (expr : Expr) : Prop :=
  expr ∈ written ∨
    ∃ value ∈ written, ∃ subject ∈ written, ∃ pos, expr = .binary value .equal subject pos

/-- An alternative holds the same expressions as statements of its own. -/
theorem exprs_alternative (otherwise : Else) :
    stmtExprs (alternative otherwise) = otherwise.exprs := by
  cases otherwise with
  | block body => rfl
  | branch conditional => simp [alternative, stmtExprs, Stmt.exprs, Else.exprs]

mutual

/-- The tree of a statement holds what is written in it and the comparisons of its switches. -/
theorem Statement.origin {written : List Expr} {outputs : List Ident} :
    ∀ statement : Statement, (∀ expr ∈ statement.exprs, expr ∈ written) →
      ∀ expr ∈ stmtExprs (statement.lower outputs), Origin written expr
  | .assign .., inside | .assignAll .., inside | .eval .., inside | .command .., inside => by
    intro expr here
    exact .inl (inside expr (by simpa [stmtExprs, Stmt.exprs, Statement.lower, Statement.exprs]
      using here))
  | .branch condition body tail pos, inside => by
    simp only [Statement.exprs, List.cons_append, List.forall_mem_cons, List.forall_mem_append]
      at inside
    obtain ⟨first, second, third⟩ := inside
    simp only [Statement.lower, stmtExprs, Stmt.exprs, Conditional.exprs, List.append_nil,
      List.cons_append, List.forall_mem_cons, List.forall_mem_append]
    exact ⟨.inl first, originAll body second, tail.origin third⟩
  | .whileLoop condition body pos, inside => by
    simp only [Statement.exprs, List.forall_mem_cons] at inside
    simp only [Statement.lower, stmtExprs, Stmt.exprs, List.append_nil, List.forall_mem_cons]
    exact ⟨.inl inside.1, originAll body inside.2⟩
  | .forLoop var range body pos, inside => by
    simp only [Statement.exprs, List.forall_mem_cons] at inside
    simp only [Statement.lower, stmtExprs, Stmt.exprs, List.append_nil, List.forall_mem_cons]
    exact ⟨.inl inside.2.1, originAll body inside.2.2⟩
  | .switch subject cases, inside => by
    simp only [Statement.exprs, List.forall_mem_cons] at inside
    rw [Statement.lower, exprs_alternative]
    exact cases.origin inside.1 inside.2
  | .tryCatch body handler pos, inside => by
    simp only [Statement.exprs, List.forall_mem_append] at inside
    simp only [Statement.lower, stmtExprs, Stmt.exprs, List.append_nil, List.forall_mem_append]
    exact ⟨originAll body inside.1, originAll handler inside.2⟩
  | .leave _, _ | .breakLoop _, _ | .continueLoop _, _ | .global _ _, _ => by
    simp [Statement.lower, stmtExprs, Stmt.exprs]

/-- The trees of some statements hold what is written in them and the comparisons. -/
theorem originAll {written : List Expr} {outputs : List Ident} :
    ∀ statements : List Statement, (∀ expr ∈ exprsAll statements, expr ∈ written) →
      ∀ expr ∈ stmtExprs (lowerAll outputs statements), Origin written expr
  | [], _ => by simp [lowerAll, stmtExprs]
  | first :: statements, inside => by
    simp only [exprsAll, List.forall_mem_append] at inside
    rw [lowerAll, stmtExprs_append, List.forall_mem_append]
    exact ⟨first.origin inside.1, originAll statements inside.2⟩

/-- What stands behind the first body of an `if` holds what is written there and the comparisons. -/
theorem Tail.origin {written : List Expr} {outputs : List Ident} :
    ∀ tail : Tail, (∀ expr ∈ tail.exprs, expr ∈ written) →
      ∀ expr ∈ (tail.lower outputs).exprs, Origin written expr
  | .none, _ => by simp [Tail.lower, Else.exprs, stmtExprs]
  | .otherwise body, inside => originAll body inside
  | .branch condition body tail pos, inside => by
    simp only [Tail.exprs, List.cons_append, List.forall_mem_cons, List.forall_mem_append] at inside
    obtain ⟨first, second, third⟩ := inside
    simp only [Tail.lower, Else.exprs, Conditional.exprs, List.cons_append, List.forall_mem_cons,
      List.forall_mem_append]
    exact ⟨.inl first, originAll body second, tail.origin third⟩

/-- The cases of a switch come to comparisons of what is written in them with the subject. -/
theorem Cases.origin {written : List Expr} {outputs : List Ident} {subject : Expr} :
    ∀ cases : Cases, subject ∈ written → (∀ expr ∈ cases.exprs, expr ∈ written) →
      ∀ expr ∈ (cases.lower outputs subject).exprs, Origin written expr
  | .none, _, _ => by simp [Cases.lower, Else.exprs, stmtExprs]
  | .otherwise body, _, inside => originAll body inside
  | .case value body cases pos, compared, inside => by
    simp only [Cases.exprs, List.cons_append, List.forall_mem_cons, List.forall_mem_append]
      at inside
    obtain ⟨first, second, third⟩ := inside
    simp only [Cases.lower, Else.exprs, Conditional.exprs, List.cons_append, List.forall_mem_cons,
      List.forall_mem_append]
    exact ⟨.inr ⟨value, first, subject, compared, pos, rfl⟩, originAll body second,
      cases.origin compared third⟩

end

/-- The tree of a program holds what is written in its statements and functions, and comparisons. -/
theorem origin_items {written : List Expr} (items : List Item)
    (inside : ∀ expr ∈ items.flatMap Item.exprs, expr ∈ written) :
    ∀ expr ∈ stmtExprs (items.flatMap Item.lower), Origin written expr := by
  induction items with
  | nil => simp [stmtExprs]
  | cons item items ih =>
    simp only [List.flatMap_cons, List.forall_mem_append] at inside
    rw [List.flatMap_cons, stmtExprs_append, List.forall_mem_append]
    refine ⟨?_, ih inside.2⟩
    cases item with
    | statement statement => exact statement.origin inside.1
    | function head body =>
      have bodies := @originAll _ head.outputs body inside.1
      simp only [Item.lower, stmtExprs, Stmt.exprs, Function.exprs, List.append_nil, closed]
      split
      · exact bodies
      · simpa [stmtExprs_append, stmtExprs, Stmt.exprs] using bodies

/-- A target is grouped as the expression that was read. -/
theorem wellGrouped_of_target {expr : Expr} {target : Target}
    (read : Target.ofExpr? expr = some target) (grouped : expr.WellGrouped) :
    target.expr.WellGrouped := by
  obtain ⟨here, parts⟩ := grouped
  cases expr with
  | ident | member | cellIndex =>
    obtain rfl := Option.some.inj read
    exact .node here parts
  | flatten object args =>
    obtain rfl := Option.some.inj read
    exact Expr.WellGrouped.apply (parts _ (.head _)) here fun arg inside => parts _ (.tail _ inside)
  | call call =>
    obtain ⟨callee, args, outputs, pos⟩ := call
    cases outputs with
    | some => cases read
    | none =>
      obtain rfl := Option.some.inj read
      refine Expr.WellGrouped.apply (parts _ (.head _)) here fun arg inside => parts _ ?_
      simp [Expr.parts, inside]
  | number | string | colon | range | lastIndex | unary | binary | matrix | cell | transpose |
    lambda | handle | parens => cases read

/-- The targets of several grouped expressions are grouped. -/
theorem wellGrouped_of_targets {row : List Expr} {targets : List Target}
    (read : row.map Target.ofExpr? = targets.map some)
    (grouped : ∀ expr ∈ row, expr.WellGrouped) : ∀ target ∈ targets, target.expr.WellGrouped := by
  induction row generalizing targets with
  | nil =>
    obtain rfl : targets = [] := by simpa using read.symm
    simp
  | cons expr row ih =>
    cases targets with
    | nil => simp at read
    | cons target targets =>
      obtain ⟨first, later⟩ := List.cons_eq_cons.mp read
      obtain ⟨here, rest⟩ := List.forall_mem_cons.mp grouped
      exact List.forall_mem_cons.mpr ⟨wellGrouped_of_target first here, ih later rest⟩

/-- An assignment is grouped as its two sides are. -/
theorem Assigns.wellGrouped {pos : Position} {left value : Expr} {written : Statement}
    (assigns : Assigns pos left value written) (leftGrouped : left.WellGrouped)
    (valueGrouped : value.WellGrouped) : ∀ expr ∈ written.exprs, expr.WellGrouped := by
  cases assigns with
  | one target =>
    simpa [Statement.exprs] using ⟨wellGrouped_of_target target leftGrouped, valueGrouped⟩
  | @name row targets function start _ same =>
    obtain ⟨-, elements⟩ := leftGrouped
    have outputs := wellGrouped_of_targets same fun expr inside =>
      elements expr (by simpa [Expr.parts] using inside)
    simp only [Statement.exprs, List.forall_mem_singleton]
    refine .node (by simp [Expr.Grouped, Expr.StandsBefore, Expr.rightSpine]) ?_
    simpa [Expr.parts] using ⟨valueGrouped, outputs⟩
  | @call row targets callee args start callPos _ same =>
    obtain ⟨-, elements⟩ := leftGrouped
    obtain ⟨here, parts⟩ := valueGrouped
    have outputs := wellGrouped_of_targets same fun expr inside =>
      elements expr (by simpa [Expr.parts] using inside)
    simp only [Statement.exprs, List.forall_mem_singleton]
    refine .node here ?_
    simp only [Expr.parts, Option.getD_none, Option.getD_some, List.map_nil, List.append_nil,
      List.cons_append, List.forall_mem_cons, List.forall_mem_append] at parts ⊢
    exact ⟨parts.1, parts.2, by simpa using outputs⟩

/-- Names are grouped. -/
theorem wellGrouped_ident (name : Ident) : (Expr.ident name).WellGrouped :=
  .node trivial (by simp [Expr.parts])

/-- The header of a `for` is grouped. -/
theorem ForHead.wellGrouped {var : Ident} {range : Expr} {s final : State}
    (reads : ForHead var range s final) : range.WellGrouped := by
  cases reads with
  | mk _ _ _ _ expression => exact expression.wellGrouped

/-- Every expression that is written in what is read is grouped by precedence. -/
theorem Reads.wellGrouped {dialect : Dialect} {part : Part} {s final : State}
    (reads : Reads dialect part s final) : ∀ expr ∈ part.exprs, expr.WellGrouped := by
  induction reads with
  | blockEnd => simp [Part.exprs, exprsAll]
  | block _ _ _ _ _ head tail => exact List.forall_mem_append.mpr ⟨head, tail⟩
  | statement _ _ head => exact head
  | eval _ _ expression => exact List.forall_mem_singleton.mpr expression.wellGrouped
  | assign _ _ left _ _ value assigns =>
    exact assigns.wellGrouped left.wellGrouped value.wellGrouped
  | command _ _ _ run =>
    obtain ⟨call, same, command, -⟩ := Parser.command_done run
    obtain ⟨rfl⟩ := same
    exact List.forall_mem_singleton.mpr command.wellGrouped
  | branch _ _ condition _ _ _ _ body tail =>
    exact List.forall_mem_cons.mpr ⟨condition.wellGrouped, List.forall_mem_append.mpr ⟨body, tail⟩⟩
  | whileLoop _ _ condition _ _ _ body =>
    exact List.forall_mem_cons.mpr ⟨condition.wellGrouped, body⟩
  | forLoop _ _ _ head _ _ _ body | forEnclosed _ _ _ head _ _ _ _ body =>
    exact List.forall_mem_cons.mpr
      ⟨wellGrouped_ident _, List.forall_mem_cons.mpr ⟨head.wellGrouped, body⟩⟩
  | switch _ subject _ _ _ cases => exact List.forall_mem_cons.mpr ⟨subject.wellGrouped, cases⟩
  | tryOnly _ _ _ _ body => simpa [Part.exprs, Statement.exprs, exprsAll] using body
  | tryCatch _ _ _ _ _ _ body handler => exact List.forall_mem_append.mpr ⟨body, handler⟩
  | global =>
    intro expr inside
    obtain ⟨name, -, rfl⟩ := List.mem_map.mp inside
    exact wellGrouped_ident name
  | breakLoop | continueLoop | leave => simp [Part.exprs, Statement.exprs]
  | noTail => simp [Part.exprs, Tail.exprs]
  | otherwiseTail _ _ body => exact body
  | branchTail _ _ condition _ _ _ body tail =>
    exact List.forall_mem_cons.mpr ⟨condition.wellGrouped, List.forall_mem_append.mpr ⟨body, tail⟩⟩
  | noCases => simp [Part.exprs, Cases.exprs]
  | otherwiseCases _ _ body => exact body
  | caseCases _ _ value _ _ _ body cases =>
    exact List.forall_mem_cons.mpr ⟨value.wellGrouped, List.forall_mem_append.mpr ⟨body, cases⟩⟩
  | noItems => simp [Part.exprs]
  | item _ _ _ _ head tail | function _ _ _ _ _ _ head tail =>
    rw [Part.exprs, List.flatMap_cons]
    exact List.forall_mem_append.mpr ⟨head, tail⟩

end Surface

/-- Every operator that is written in an accepted program has the operands that the table of
precedence gives to it. All expressions of the program are written in it but the comparisons of its
switches. -/
theorem Program.wellGrouped_of_accepted {dialect : Dialect} {tokens : List Token}
    {program : Program} (accepted : Program.ofTokens dialect tokens = some (.ok program)) :
    ∃ (items : List Surface.Item) (final : State),
      Surface.Reads dialect (.items items) (.start tokens) final ∧ final.rest = [] ∧
        program.body = items.flatMap Surface.Item.lower ∧
        (∀ expr ∈ items.flatMap Surface.Item.exprs, expr.WellGrouped) ∧
        ∀ expr ∈ program.exprs, Surface.Origin (items.flatMap Surface.Item.exprs) expr := by
  obtain ⟨items, final, reads, ended, tree⟩ := Surface.program_sound accepted
  refine ⟨items, final, reads, ended, tree, reads.wellGrouped, ?_⟩
  rw [Program.exprs, tree]
  exact Surface.origin_items items fun expr inside => inside

/-- In `a^-b'^c` the minus takes the power behind it, whose base is the transposed `b`. -/
theorem Program.wellGrouped_of_powers :
    ∃ (items : List Surface.Item) (final : State),
      Surface.Reads .strict (.items items) (.start [⟨.ident, "a", ⟨1, 0⟩⟩, ⟨.caret, "^", ⟨1, 1⟩⟩,
        ⟨.minus, "-", ⟨1, 2⟩⟩, ⟨.ident, "b", ⟨1, 3⟩⟩, ⟨.transpose, "'", ⟨1, 4⟩⟩,
        ⟨.caret, "^", ⟨1, 5⟩⟩, ⟨.ident, "c", ⟨1, 6⟩⟩]) final ∧
      [Stmt.eval (.binary (.ident ⟨"a", ⟨1, 0⟩⟩) .pow (.unary .minus (.binary
        (.transpose (.ident ⟨"b", ⟨1, 3⟩⟩) "'" ⟨1, 4⟩) .pow (.ident ⟨"c", ⟨1, 6⟩⟩) ⟨1, 5⟩) ⟨1, 2⟩)
        ⟨1, 1⟩) ⟨1, 1⟩] = items.flatMap Surface.Item.lower ∧
      ∀ expr ∈ items.flatMap Surface.Item.exprs, expr.WellGrouped := by
  have accepted : Program.ofTokens .strict [⟨.ident, "a", ⟨1, 0⟩⟩, ⟨.caret, "^", ⟨1, 1⟩⟩,
        ⟨.minus, "-", ⟨1, 2⟩⟩, ⟨.ident, "b", ⟨1, 3⟩⟩, ⟨.transpose, "'", ⟨1, 4⟩⟩,
        ⟨.caret, "^", ⟨1, 5⟩⟩, ⟨.ident, "c", ⟨1, 6⟩⟩] =
      some (.ok ⟨[Stmt.eval (.binary (.ident ⟨"a", ⟨1, 0⟩⟩) .pow (.unary .minus (.binary
        (.transpose (.ident ⟨"b", ⟨1, 3⟩⟩) "'" ⟨1, 4⟩) .pow (.ident ⟨"c", ⟨1, 6⟩⟩) ⟨1, 5⟩) ⟨1, 2⟩)
        ⟨1, 1⟩) ⟨1, 1⟩]⟩) := by cbv
  obtain ⟨items, final, reads, -, tree, grouped, -⟩ := Program.wellGrouped_of_accepted accepted
  exact ⟨items, final, reads, tree, grouped⟩

end MatlabFront
