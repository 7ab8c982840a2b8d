import MatlabFront.Tree

/-!
# Switches

A switch is a chain of cases, ended by what runs when no case fits. Once its subject is known, each
case becomes a condition that compares its value with the subject, and the rest of the chain runs
otherwise; so the first case that fits runs, and no other. A switch without cases is just the
statements of its last part.
-/

namespace MatlabFront

/-- A case of a switch. -/
structure CaseClause where
  value : Expr
  body : List Stmt
  /-- The position of the keyword. -/
  pos : Position

/-- The cases of a switch, in order, ended by the statements that run when none fits. -/
inductive CaseChain where
  | otherwise (body : List Stmt)
  | none
  | case (clause : CaseClause) (rest : CaseChain)

namespace CaseChain

/-- The chain of some cases and the statements for the case that none of them fits, if given. -/
def ofClauses (clauses : List CaseClause) (otherwise : Option (List Stmt)) : CaseChain :=
  clauses.foldr .case (match otherwise with
    | some body => .otherwise body
    | Option.none => .none)

/-- What runs when the cases before a chain do not fit. -/
def remainder (subject : Expr) : CaseChain → Else
  | none => .block []
  | otherwise body => .block body
  | case clause rest =>
    .branch (.mk (.binary clause.value .equal subject clause.pos) clause.body
      (rest.remainder subject) clause.pos)

/-- The condition of a case and of the cases after it. -/
def condition (subject : Expr) (clause : CaseClause) (rest : CaseChain) : Conditional :=
  .mk (.binary clause.value .equal subject clause.pos) clause.body (rest.remainder subject)
    clause.pos

/-- What a switch comes to once its subject is known. -/
inductive Lowering where
  | branch (conditional : Conditional)
  /-- There was no case; only these statements are left. -/
  | block (body : List Stmt)

/-- Puts the subject into every case of a chain. -/
def lower (subject : Expr) : CaseChain → Lowering
  | none => .block []
  | otherwise body => .block body
  | case clause rest => .branch (condition subject clause rest)

/-- The statements of a lowered switch. -/
def Lowering.statements : Lowering → List Stmt
  | branch conditional => [.branch conditional]
  | block body => body

end CaseChain

end MatlabFront
