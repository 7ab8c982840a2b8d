import MatlabFront.Proofs.Program.Returns

/-!
# What the tree of a program holds

The expressions of a program stand in its statements, at some depth. Lowering keeps them: an
expression with some property is in the tree exactly when one is written. A switch without cases is
the exception, because its subject is written and its tree has no comparison to put it in.
-/

namespace MatlabFront

mutual

/-- The conditions of a condition and of its alternatives. -/
def Conditional.conditions : Conditional → List Expr
  | .mk condition _ otherwise _ => condition :: otherwise.conditions

/-- The conditions of an alternative. -/
def Else.conditions : Else → List Expr
  | .block _ => []
  | .branch conditional => conditional.conditions

end

/-- The expressions of a statement itself, with the names that it declares. Those in its blocks are
none of them. -/
def Stmt.own : Stmt → List Expr
  | .assign target value _ => [target.expr, value]
  | .eval expr _ => [expr]
  | .call inner => [.call inner]
  | .branch conditional => conditional.conditions
  | .whileLoop condition _ _ => [condition]
  | .forLoop var range _ _ => [.ident var, range]
  | .global names _ => names.map .ident
  | .tryCatch _ _ _ | .leave _ _ | .breakLoop _ | .continueLoop _ | .function _ => []

/-- A statement of a block, at any depth, has an expression with some property. -/
def BlockHolds (holds : Expr → Prop) (body : List Stmt) : Prop :=
  ∃ inner : Stmt, inner.Within body ∧ ∃ expr ∈ inner.own, holds expr

/-- An alternative has an expression with some property, in its conditions or in its blocks. -/
def Else.Holds (holds : Expr → Prop) (otherwise : Else) : Prop :=
  (∃ expr ∈ otherwise.conditions, holds expr) ∨
    ∃ block ∈ otherwise.blocks, BlockHolds holds block

variable {holds : Expr → Prop} {body more : List Stmt}

/-- A block has an expression in one of its statements, or in a block of one. -/
theorem blockHolds_iff : BlockHolds holds body ↔ ∃ statement ∈ body,
    (∃ expr ∈ statement.own, holds expr) ∨
      ∃ block ∈ statement.blocks, BlockHolds holds block := by
  constructor
  · rintro ⟨inner, within, held⟩
    cases within with
    | here inside => exact ⟨inner, inside, .inl held⟩
    | deeper outside among within => exact ⟨_, outside, .inr ⟨_, among, inner, within, held⟩⟩
  · rintro ⟨statement, inside, held | ⟨block, among, inner, within, held⟩⟩
    · exact ⟨statement, .here inside, held⟩
    · exact ⟨inner, .deeper inside among within, held⟩

/-- An empty block has no expressions. -/
theorem not_blockHolds_nil : ¬BlockHolds holds [] := by
  rw [blockHolds_iff]
  simp

/-- A block of one statement has what the statement and its blocks have. -/
theorem blockHolds_singleton {statement : Stmt} : BlockHolds holds [statement] ↔
    (∃ expr ∈ statement.own, holds expr) ∨
      ∃ block ∈ statement.blocks, BlockHolds holds block := by
  rw [blockHolds_iff]
  simp

/-- Two blocks together have what one of them has. -/
theorem blockHolds_append :
    BlockHolds holds (body ++ more) ↔ BlockHolds holds body ∨ BlockHolds holds more := by
  rw [blockHolds_iff, blockHolds_iff, blockHolds_iff]
  simp only [List.mem_append, or_and_right, exists_or]

/-- A block as an alternative has what is in the block. -/
theorem Else.holds_block : (Else.block body).Holds holds ↔ BlockHolds holds body := by
  simp [Else.Holds, Else.conditions, Else.blocks]

/-- A condition as an alternative has what is in its expression, its body and its alternative. -/
theorem Else.holds_branch {condition : Expr} {otherwise : Else} {pos : Position} :
    (Else.branch (.mk condition body otherwise pos)).Holds holds ↔
      holds condition ∨ BlockHolds holds body ∨ otherwise.Holds holds := by
  simp only [Else.Holds, Else.conditions, Conditional.conditions, Else.blocks, Conditional.blocks,
    List.mem_cons, exists_eq_or_imp, or_assoc]
  rw [or_left_comm (b := BlockHolds holds body)]

namespace Surface

/-- The cases of a switch begin with one. -/
def Cases.isCase : Cases → Bool
  | .case _ _ _ _ => true
  | _ => false

mutual

/-- Every switch in a statement has a case. -/
def Statement.cased : Statement → Bool
  | .branch _ body tail _ => casedAll body && tail.cased
  | .whileLoop _ body _ | .forLoop _ _ body _ => casedAll body
  | .switch _ cases => cases.isCase && cases.cased
  | .tryCatch body handler _ => casedAll body && casedAll handler
  | .assign _ _ _ | .assignAll _ _ _ _ | .eval _ | .command _ | .leave _ | .breakLoop _
  | .continueLoop _ | .global _ _ => true

/-- Every switch in some statements has a case. -/
def casedAll : List Statement → Bool
  | [] => true
  | statement :: statements => statement.cased && casedAll statements

/-- Every switch behind the first body of an `if` has a case. -/
def Tail.cased : Tail → Bool
  | .none => true
  | .otherwise body => casedAll body
  | .branch _ body tail _ => casedAll body && tail.cased

/-- Every switch inside the cases of a switch has a case. -/
def Cases.cased : Cases → Bool
  | .none => true
  | .otherwise body => casedAll body
  | .case _ body cases _ => casedAll body && cases.cased

end

/-- Every switch in a statement or function at the top of a program has a case. -/
def Item.cased : Item → Bool
  | .statement written => written.cased
  | .function _ body => casedAll body

/-- An alternative has the same when nothing stands in front of it. -/
theorem blockHolds_alternative {otherwise : Else} :
    BlockHolds holds (alternative otherwise) ↔ otherwise.Holds holds := by
  cases otherwise with
  | block body => exact Else.holds_block.symm
  | branch conditional => exact blockHolds_singleton

/-- A comparison has the property when one of its sides has it. -/
def Compares (holds : Expr → Prop) : Prop :=
  ∀ value subject pos, holds (.binary value .equal subject pos) ↔ holds value ∨ holds subject

mutual

/-- The tree of a statement has what is written in it. -/
theorem Statement.holds_lower (compares : Compares holds) (outputs : List Ident) :
    ∀ statement : Statement, statement.cased = true →
      (BlockHolds holds (statement.lower outputs) ↔ ∃ expr ∈ statement.exprs, holds expr)
  | .assign .., _ | .assignAll .., _ | .eval _, _ | .command _, _ | .global .., _ | .leave _, _
  | .breakLoop _, _ | .continueLoop _, _ => by
    rw [Statement.lower, blockHolds_singleton]
    simp [Stmt.own, Stmt.blocks, Statement.exprs]
  | .branch condition body tail pos, cased => by
    obtain ⟨first, second⟩ := Bool.and_eq_true_iff.mp cased
    have branch := @blockHolds_alternative holds
      (.branch (.mk condition (lowerAll outputs body) (tail.lower outputs) pos))
    rw [Else.holds_branch, holds_lowerAll compares outputs body first,
      tail.holds_lower compares outputs second] at branch
    exact branch.trans (by simp [Statement.exprs, or_and_right, exists_or])
  | .whileLoop condition body pos, cased => by
    rw [Statement.lower, blockHolds_singleton]
    simp [Stmt.own, Stmt.blocks, Statement.exprs, holds_lowerAll compares outputs body cased]
  | .forLoop var range body pos, cased => by
    rw [Statement.lower, blockHolds_singleton]
    simp [Stmt.own, Stmt.blocks, Statement.exprs, holds_lowerAll compares outputs body cased,
      or_assoc]
  | .switch subject cases, cased => by
    obtain ⟨first, all⟩ := Bool.and_eq_true_iff.mp cased
    rw [Statement.lower, blockHolds_alternative, cases.holds_lower compares outputs subject all]
    simp [Statement.exprs, first]
  | .tryCatch body handler pos, cased => by
    obtain ⟨first, second⟩ := Bool.and_eq_true_iff.mp cased
    rw [Statement.lower, blockHolds_singleton]
    simp [Stmt.own, Stmt.blocks, Statement.exprs, holds_lowerAll compares outputs body first,
      holds_lowerAll compares outputs handler second, or_and_right, exists_or]

/-- The trees of some statements have what is written in them. -/
theorem holds_lowerAll (compares : Compares holds) (outputs : List Ident) :
    ∀ statements : List Statement, casedAll statements = true →
      (BlockHolds holds (lowerAll outputs statements) ↔ ∃ expr ∈ exprsAll statements, holds expr)
  | [], _ => by simp [lowerAll, exprsAll, not_blockHolds_nil]
  | statement :: statements, cased => by
    obtain ⟨first, later⟩ := Bool.and_eq_true_iff.mp cased
    rw [lowerAll, blockHolds_append, statement.holds_lower compares outputs first,
      holds_lowerAll compares outputs statements later]
    simp [exprsAll, or_and_right, exists_or]

/-- What stands behind the first body of an `if` has what is written there. -/
theorem Tail.holds_lower (compares : Compares holds) (outputs : List Ident) :
    ∀ tail : Tail, tail.cased = true →
      ((tail.lower outputs).Holds holds ↔ ∃ expr ∈ tail.exprs, holds expr)
  | .none, _ => by simp [Tail.lower, Tail.exprs, Else.holds_block, not_blockHolds_nil]
  | .otherwise body, cased => Else.holds_block.trans (holds_lowerAll compares outputs body cased)
  | .branch condition body tail pos, cased => by
    obtain ⟨first, second⟩ := Bool.and_eq_true_iff.mp cased
    rw [Tail.lower, Else.holds_branch, holds_lowerAll compares outputs body first,
      tail.holds_lower compares outputs second]
    simp [Tail.exprs, or_and_right, exists_or]

/-- The cases of a switch have what is written in them, and the subject as soon as there is one. -/
theorem Cases.holds_lower (compares : Compares holds) (outputs : List Ident) (subject : Expr) :
    ∀ cases : Cases, cases.cased = true →
      ((cases.lower outputs subject).Holds holds ↔
        (cases.isCase = true ∧ holds subject) ∨ ∃ expr ∈ cases.exprs, holds expr)
  | .none, _ => by
    simp [Cases.lower, Cases.exprs, Cases.isCase, Else.holds_block, not_blockHolds_nil]
  | .otherwise body, cased => by
    rw [Cases.lower, Else.holds_block, holds_lowerAll compares outputs body cased]
    simp [Cases.isCase, Cases.exprs]
  | .case value body cases pos, cased => by
    obtain ⟨first, second⟩ := Bool.and_eq_true_iff.mp cased
    have written : (∃ expr ∈ (Cases.case value body cases pos).exprs, holds expr) ↔
        holds value ∨ (∃ expr ∈ exprsAll body, holds expr) ∨ ∃ expr ∈ cases.exprs, holds expr := by
      simp [Cases.exprs, or_and_right, exists_or]
    have isCase : (Cases.case value body cases pos).isCase = true := rfl
    -- The comparison has what the subject has, so the cases behind it add nothing for the subject.
    rw [Cases.lower, Else.holds_branch, compares, holds_lowerAll compares outputs body first,
      cases.holds_lower compares outputs subject second, written]
    by_cases subjectHolds : holds subject
    · simp [isCase, subjectHolds]
    · simp [subjectHolds]

end

/-- The return that is put behind the body of a function has no expressions. -/
theorem blockHolds_closed {head : Header} :
    BlockHolds holds (closed head body) ↔ BlockHolds holds body := by
  unfold closed
  split
  · rfl
  · rw [blockHolds_append, blockHolds_singleton]
    simp [Stmt.own, Stmt.blocks]

end Surface

end MatlabFront
