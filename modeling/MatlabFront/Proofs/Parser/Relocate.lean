import MatlabFront.Parser.Program
import MatlabFront.Proofs.Tree.Relocate

/-!
# What the parser makes of trees at other positions

Moving the positions goes through everything that the parser builds from trees: targets, assignments,
switches and the returns of a function. A failure moves with the token that it is about; the end of the
input has a position of its own.
-/

namespace MatlabFront

/-- A case of a switch with every position moved. -/
@[simp] def CaseClause.relocate (move : Position → Position) (clause : CaseClause) : CaseClause :=
  ⟨clause.value.relocate move, relocateStmts move clause.body, move clause.pos⟩

/-- A scope with every position moved. -/
@[simp] def Scope.relocate (move : Position → Position) (scope : Scope) : Scope :=
  ⟨scope.outputs.map (Ident.relocate move), scope.usesNargin⟩

variable {move : Position → Position}

/-- A name that is declared stands where its token does. -/
@[simp] theorem Parser.declared_relocate (token : Token) :
    declared (token.relocate move) = (declared token).relocate move := rfl

/-- A row that is put in front of others is moved with them. -/
theorem Parser.relocate_rowsOf (row : List Expr) (rows : List (List Expr)) :
    (rowsOf row rows).map (List.map (Expr.relocate move)) =
      rowsOf (row.map (Expr.relocate move)) (rows.map (List.map (Expr.relocate move))) := by
  unfold rowsOf
  cases row <;> rfl

/-- What can be assigned to can be assigned to elsewhere. -/
theorem Target.ofExpr?_relocate (expr : Expr) :
    Target.ofExpr? (expr.relocate move) = (Target.ofExpr? expr).map (Target.relocate move) := by
  cases expr with
  | range start step stop => cases step <;> rfl
  | call call => obtain ⟨callee, args, _ | outputs, pos⟩ := call <;> simp [ofExpr?]
  | _ => simp [ofExpr?]

/-- The position behind the last of some tokens. -/
def Position.behind (tokens : List Token) : Position :=
  match tokens.getLast? with
  | some last => ⟨last.pos.line, last.stop⟩
  | none => .origin

/-- A failure with its positions moved; the input ends at a position of its own. -/
def Failure.relocate (move : Position → Position) (behind : Position) : Failure → Failure
  | .syntaxFault complaint (some token) pos =>
    .syntaxFault complaint (some (token.relocate move)) (move pos)
  | .syntaxFault complaint none _ => .syntaxFault complaint none behind
  | .invalidTarget flaw pos => .invalidTarget flaw (move pos)

/-- A result with its positions moved. -/
def relocateResult {α : Type} (move : Position → Position) (behind : Position) (image : α → α) :
    Except Failure α → Except Failure α
  | .ok value => .ok (image value)
  | .error failure => .error (failure.relocate move behind)

namespace Assignment

variable (behind : Position)

/-- An expression is a target wherever it stands. -/
theorem target_relocate (expr : Expr) :
    target (expr.relocate move) =
      relocateResult move behind (Target.relocate move) (target expr) := by
  unfold target
  rw [Target.ofExpr?_relocate]
  cases Target.ofExpr? expr <;> simp [relocateResult, Failure.relocate]

/-- Expressions are targets wherever they stand. -/
theorem targets_relocate (exprs : List Expr) :
    targets (exprs.map (Expr.relocate move)) =
      relocateResult move behind (List.map (Target.relocate move)) (targets exprs) := by
  induction exprs with
  | nil => rfl
  | cons expr exprs ih =>
    rw [List.map_cons, targets, targets, target_relocate behind, ih]
    cases target expr with
    | error failure => rfl
    | ok first => cases targets exprs <;> rfl

/-- A call takes the same targets wherever both stand. -/
theorem callWith_relocate (outputs : List Target) (value : Expr) :
    callWith (outputs.map (Target.relocate move)) (value.relocate move) =
      relocateResult move behind (Call.relocate move) (callWith outputs value) := by
  cases value with
  | range start step stop => cases step <;> rfl
  | call call =>
    obtain ⟨callee, args, _ | outputs, pos⟩ := call <;>
      simp [callWith, relocateResult, Failure.relocate, Expr.pos, Call.pos]
  | _ => simp [callWith, relocateResult, Failure.relocate, Expr.pos]

/-- An assignment to several targets is accepted wherever it stands. -/
theorem multiple_relocate (rows : List (List Expr)) (pos : Position) (value : Expr) :
    multiple (rows.map (List.map (Expr.relocate move))) (move pos) (value.relocate move) =
      relocateResult move behind (Call.relocate move) (multiple rows pos value) := by
  match rows with
  | [] | [] :: _ | (_ :: _) :: _ :: _ => rfl
  | [first :: more] =>
    simp only [List.map_cons, List.map_nil, multiple]
    rw [← List.map_cons, targets_relocate behind]
    cases targets (first :: more) with
    | error failure => rfl
    | ok outputs => exact callWith_relocate behind outputs value

/-- What is no matrix is a target of its own. -/
theorem statement_of_ne {left : Expr} (value : Expr) (pos : Position)
    (other : ∀ rows start, left ≠ .matrix rows start) :
    statement left value pos = match target left with
      | .error failure => .error failure
      | .ok target => .ok (.assign target value pos) := by
  unfold statement
  split
  · next rows start => exact absurd rfl (other rows start)
  · rfl

/-- An assignment comes to the same elsewhere. -/
theorem statement_relocate (left value : Expr) (pos : Position) :
    statement (left.relocate move) (value.relocate move) (move pos) =
      relocateResult move behind (Stmt.relocate move) (statement left value pos) := by
  by_cases matrix : ∃ rows start, left = .matrix rows start
  · obtain ⟨rows, start, rfl⟩ := matrix
    simp only [statement, Expr.relocate, relocateRows_eq_map]
    rw [multiple_relocate behind]
    cases multiple rows start value <;> rfl
  · have other : ∀ rows start, left ≠ .matrix rows start :=
      fun rows start same => matrix ⟨rows, start, same⟩
    have others : ∀ rows start, left.relocate move ≠ .matrix rows start := by
      cases left with
      | matrix rows start => exact absurd rfl (other rows start)
      | range start step stop => cases step <;> simp
      | _ => simp
    rw [statement_of_ne value pos other, statement_of_ne _ _ others, target_relocate behind]
    cases target left <;> rfl

variable {failure : Failure}

/-- An expression is refused as a target at its own position. -/
theorem invalidTarget_of_target {expr : Expr} (refused : target expr = .error failure) :
    failure = .invalidTarget .notAssignable expr.pos := by
  unfold target at refused
  cases found : Target.ofExpr? expr with
  | some target => simp [found] at refused
  | none => simpa [found] using refused.symm

/-- Targets are refused at the position of one of them. -/
theorem invalidTarget_of_targets {exprs : List Expr} (refused : targets exprs = .error failure) :
    ∃ expr ∈ exprs, failure = .invalidTarget .notAssignable expr.pos := by
  induction exprs with
  | nil => cases refused
  | cons expr exprs ih =>
    rw [targets] at refused
    cases first : target expr with
    | error other =>
      obtain rfl : failure = other := by simpa [first] using refused.symm
      exact ⟨expr, List.mem_cons_self, invalidTarget_of_target first⟩
    | ok found =>
      cases later : targets exprs with
      | ok more => simp [first, later] at refused
      | error other =>
        obtain rfl : failure = other := by simpa [first, later] using refused.symm
        obtain ⟨expr, inside, known⟩ := ih later
        exact ⟨expr, List.mem_cons_of_mem _ inside, known⟩

/-- A value that is no call is refused at its own position. -/
theorem invalidTarget_of_callWith {outputs : List Target} {value : Expr}
    (refused : callWith outputs value = .error failure) :
    failure = .invalidTarget .valueNotACall value.pos := by
  unfold callWith at refused
  split at refused
  · cases refused
  · cases refused
  · exact (Except.error.inj refused).symm

/-- An assignment is refused at a position in it. -/
theorem invalidTarget_of_statement {left value : Expr} {pos : Position}
    (refused : statement left value pos = .error failure) :
    ∃ flaw start, failure = .invalidTarget flaw start ∧
      start ∈ left.positions ++ value.positions := by
  by_cases matrix : ∃ rows start, left = .matrix rows start
  · obtain ⟨rows, start, rfl⟩ := matrix
    cases made : multiple rows start value with
    | ok call => simp [statement, made] at refused
    | error other =>
      obtain rfl : failure = other := by simpa [statement, made] using refused.symm
      unfold multiple at made
      split at made
      · next first more =>
        cases read : targets (first :: more) with
        | error other =>
          obtain rfl : failure = other := by simpa [read] using made.symm
          obtain ⟨expr, inside, known⟩ := invalidTarget_of_targets read
          refine ⟨_, _, known, ?_⟩
          have among : expr.pos ∈ exprPositions (first :: more) :=
            mem_exprPositions.mpr ⟨expr, inside, expr.pos_mem_positions⟩
          simp [Expr.positions, rowPositions, among]
        | ok outputs =>
          have refused : callWith outputs value = .error failure := by simpa [read] using made
          exact ⟨_, _, invalidTarget_of_callWith refused, by simp [value.pos_mem_positions]⟩
      · exact ⟨_, _, (Except.error.inj made).symm, by simp [Expr.positions]⟩
  · rw [statement_of_ne value pos fun rows start same => matrix ⟨rows, start, same⟩] at refused
    cases read : target left with
    | ok target => simp [read] at refused
    | error other =>
      obtain rfl : failure = other := by simpa [read] using refused.symm
      exact ⟨_, _, invalidTarget_of_target read, by simp [left.pos_mem_positions]⟩

end Assignment

namespace CaseChain

variable (subject : Expr) (clauses : List CaseClause) (otherwise : Option (List Stmt))

/-- What runs when no case fits is the same elsewhere. -/
theorem relocate_remainder :
    ((ofClauses clauses otherwise).remainder subject).relocate move =
      (ofClauses (clauses.map (CaseClause.relocate move))
        (otherwise.map (List.map (Stmt.relocate move)))).remainder (subject.relocate move) := by
  induction clauses with
  | nil => cases otherwise <;> simp [ofClauses, remainder]
  | cons clause clauses ih =>
    simp only [ofClauses] at ih
    simp [ofClauses, remainder, ih]

/-- A switch is lowered to the same statements elsewhere. -/
theorem relocate_statements :
    (lower subject (ofClauses clauses otherwise)).statements.map (Stmt.relocate move) =
      (lower (subject.relocate move) (ofClauses (clauses.map (CaseClause.relocate move))
        (otherwise.map (List.map (Stmt.relocate move))))).statements := by
  cases clauses with
  | nil => cases otherwise <;> simp [ofClauses, lower, Lowering.statements]
  | cons clause clauses =>
    have rest := @relocate_remainder move subject clauses otherwise
    simp only [ofClauses] at rest
    simp [ofClauses, lower, Lowering.statements, condition, rest]

end CaseChain

/-- A function is closed in the same way elsewhere. -/
theorem Function.relocate_close (head : Header) (body : List Stmt) (scope : Scope) :
    (Function.close head body scope).relocate move =
      .close (head.relocate move) (body.map (Stmt.relocate move)) (scope.relocate move) := by
  unfold close
  cases last : body.getLast? with
  | none => simp [List.getLast?_map, last]
  | some stmt => cases stmt <;> simp [List.getLast?_map, last]

end MatlabFront
