import MatlabFront.Switch

/-!
# What a switch chooses

A chain of conditions runs the body of the first one that holds, and its last block when none does. So
what it chooses depends only on its conditions in order, with their bodies, and on that block. The
chain that a switch is lowered to has one condition for each case, and chooses what the switch says:
the body of the first case that fits, or else what is written for the case that none does.
-/

namespace MatlabFront

/-- One condition of a chain, without the conditions behind it. -/
structure Guard where
  condition : Expr
  body : List Stmt
  pos : Position

mutual

/-- The conditions of a chain, in order. -/
def Conditional.guards : Conditional → List Guard
  | .mk condition body otherwise pos => ⟨condition, body, pos⟩ :: otherwise.guards

/-- The conditions that are asked behind one that fails, in order. -/
def Else.guards : Else → List Guard
  | .block _ => []
  | .branch conditional => conditional.guards

end

mutual

/-- The block at the end of a chain. -/
def Conditional.last : Conditional → List Stmt
  | .mk _ _ otherwise _ => otherwise.last

/-- The block that runs when one condition fails and all those behind it. -/
def Else.last : Else → List Stmt
  | .block body => body
  | .branch conditional => conditional.last

end

section Chosen

variable (holds : Expr → Bool)

mutual

/-- The statements that a chain chooses when some expressions hold: those of its first condition if it
holds, and else what the rest chooses. -/
def Conditional.chosen : Conditional → List Stmt
  | .mk condition body otherwise _ => if holds condition then body else otherwise.chosen

/-- The statements that are chosen when a condition fails. -/
def Else.chosen : Else → List Stmt
  | .block body => body
  | .branch conditional => conditional.chosen

end

/-- The body of the first guard that holds, or else a last block. -/
def Guard.first (guards : List Guard) (last : List Stmt) : List Stmt :=
  ((guards.find? fun guard => holds guard.condition).map Guard.body).getD last

mutual

/-- A chain chooses the body of its first condition that holds, or else its last block. -/
theorem Conditional.chosen_eq (conditional : Conditional) :
    conditional.chosen holds = Guard.first holds conditional.guards conditional.last := by
  match conditional with
  | .mk condition body otherwise pos =>
    rw [Conditional.chosen, Conditional.guards, Conditional.last, Guard.first]
    cases asked : holds condition with
    | true => simp [asked]
    | false => simpa [asked, Guard.first] using Else.chosen_eq otherwise

/-- Behind a condition that fails, the first one that holds is chosen, or else the last block. -/
theorem Else.chosen_eq (otherwise : Else) :
    otherwise.chosen holds = Guard.first holds otherwise.guards otherwise.last := by
  match otherwise with
  | .block body => rfl
  | .branch conditional => exact conditional.chosen_eq

end

end Chosen

/-- A case as a condition: its value is compared with the subject, which stays as it is. -/
def CaseClause.guard (subject : Expr) (clause : CaseClause) : Guard :=
  ⟨.binary clause.value .equal subject clause.pos, clause.body, clause.pos⟩

namespace CaseChain

/-- The conditions of a lowered switch, in order. -/
def Lowering.guards : Lowering → List Guard
  | branch conditional => conditional.guards
  | block _ => []

/-- The statements of a lowered switch that run when no condition holds. -/
def Lowering.last : Lowering → List Stmt
  | branch conditional => conditional.last
  | block body => body

/-- The statements that a lowered switch chooses when some expressions hold. -/
def Lowering.chosen (holds : Expr → Bool) : Lowering → List Stmt
  | branch conditional => conditional.chosen holds
  | block body => body

/-- A lowered switch chooses the body of its first condition that holds, or else its last block. -/
theorem Lowering.chosen_eq (holds : Expr → Bool) (lowering : Lowering) :
    lowering.chosen holds = Guard.first holds lowering.guards lowering.last := by
  cases lowering with
  | branch conditional => exact conditional.chosen_eq holds
  | block body => rfl

variable (subject : Expr) (clauses : List CaseClause) (otherwise : Option (List Stmt))

/-- The cases that are left become one condition each, in order. -/
theorem guards_remainder :
    ((ofClauses clauses otherwise).remainder subject).guards =
      clauses.map (CaseClause.guard subject) := by
  induction clauses with
  | nil => cases otherwise <;> rfl
  | cons clause clauses rest => exact congrArg (clause.guard subject :: ·) rest

/-- When none of the cases that are left fits, the statements for that case run, if given. -/
theorem last_remainder :
    ((ofClauses clauses otherwise).remainder subject).last = otherwise.getD [] := by
  induction clauses with
  | nil => cases otherwise <;> rfl
  | cons clause clauses rest => exact rest

/-- A switch becomes one condition for each case, in order. -/
theorem guards_lower :
    (lower subject (ofClauses clauses otherwise)).guards = clauses.map (CaseClause.guard subject) := by
  cases clauses with
  | nil => cases otherwise <;> rfl
  | cons clause clauses =>
    exact congrArg (clause.guard subject :: ·) (guards_remainder subject clauses otherwise)

/-- When no case of a switch fits, the statements for that case run, if given. -/
theorem last_lower : (lower subject (ofClauses clauses otherwise)).last = otherwise.getD [] := by
  cases clauses with
  | nil => cases otherwise <;> rfl
  | cons clause clauses => exact last_remainder subject clauses otherwise

/-- Lowering keeps the meaning of a switch. It becomes one condition for each case, in order, with the
position and the body of the case, that compares its value with the subject; and whatever expressions
hold, the body of the first case whose comparison holds is chosen, or else the statements for the case
that none does, or else nothing. -/
theorem lower_chosen :
    (∀ holds : Expr → Bool, (lower subject (ofClauses clauses otherwise)).chosen holds =
      ((clauses.find? fun clause => holds (.binary clause.value .equal subject clause.pos)).map
        CaseClause.body).getD (otherwise.getD [])) ∧
    (lower subject (ofClauses clauses otherwise)).guards =
      clauses.map (fun clause =>
        ⟨.binary clause.value .equal subject clause.pos, clause.body, clause.pos⟩) ∧
    (lower subject (ofClauses clauses otherwise)).last = otherwise.getD [] := by
  refine ⟨fun holds => ?_, guards_lower subject clauses otherwise,
    last_lower subject clauses otherwise⟩
  rw [Lowering.chosen_eq, guards_lower, last_lower, Guard.first, List.find?_map, Option.map_map]
  rfl

end CaseChain

end MatlabFront
