import MatlabFront.Proofs.Expression.Table
import MatlabFront.Tree.Node

/-!
# How operators are grouped in a tree

The left spine of a tree holds the operators that an operator in front of it could have taken away,
and the right spine those that an operator behind it could have. A node groups its operands as the
table of precedence says when its own powers hold against these. Parentheses, literals and
everything else that closes itself have empty spines.
-/

namespace MatlabFront

/-- The powers on the left of the infix and postfix operators on the left spine of a tree. -/
def Expr.leftSpine : Expr → List Nat
  | .range start _ _ _ => InfixOperator.colon.leftPower :: start.leftSpine
  | .binary left operator _ _ => operator.entry.leftPower :: left.leftSpine
  | .call (.mk callee _ _ _) => PostfixOperator.call.leftPower :: callee.leftSpine
  | .flatten object _ _ => PostfixOperator.call.leftPower :: object.leftSpine
  | .cellIndex object _ _ => PostfixOperator.cellIndex.leftPower :: object.leftSpine
  | .member object _ _ => PostfixOperator.field.leftPower :: object.leftSpine
  | .transpose operand _ _ => PostfixOperator.transpose.leftPower :: operand.leftSpine
  | _ => []

/-- The powers on the right of the infix operators, unary operators and anonymous functions on the
right spine of a tree. -/
def Expr.rightSpine : Expr → List Nat
  | .range _ _ stop _ => InfixOperator.colon.rightPower :: stop.rightSpine
  | .binary _ operator right _ => operator.entry.rightPower :: right.rightSpine
  | .unary _ operand _ => UnaryOperator.operandPower :: operand.rightSpine
  | .lambda _ body _ => lambdaBodyPower :: body.rightSpine
  | _ => []

namespace Expr

/-- A tree is a range, not in parentheses. -/
def isRange : Expr → Bool
  | .range .. => true
  | _ => false

/-- A tree is a range of two operands, not in parentheses. -/
def isShortRange : Expr → Bool
  | .range _ none _ _ => true
  | _ => false

/-- A tree can stand in front of an operator of some left power: nothing that is still open at its
end takes the operator. -/
def StandsBefore (left : Expr) (power : Nat) : Prop := ∀ right ∈ left.rightSpine, power < right

/-- A tree can stand behind an operator of some right power: the operator takes all of it. -/
def StandsBehind (right : Expr) (power : Nat) : Prop := ∀ left ∈ right.leftSpine, power ≤ left

instance (left : Expr) (power : Nat) : Decidable (left.StandsBefore power) :=
  inferInstanceAs (Decidable (∀ right ∈ left.rightSpine, power < right))

instance (right : Expr) (power : Nat) : Decidable (right.StandsBehind power) :=
  inferInstanceAs (Decidable (∀ left ∈ right.leftSpine, power ≤ left))

/-- The operands of a node are those that the table of precedence gives to its operator. -/
def Grouped : Expr → Prop
  | .range start step stop _ =>
    start.StandsBefore InfixOperator.colon.leftPower ∧ start.isShortRange = false ∧
      (∀ middle ∈ step, middle.StandsBefore InfixOperator.colon.leftPower ∧
        middle.StandsBehind InfixOperator.colon.rightPower ∧ middle.isRange = false) ∧
      stop.StandsBehind InfixOperator.colon.rightPower ∧ stop.isRange = false
  | .binary left operator right _ =>
    left.StandsBefore operator.entry.leftPower ∧ right.StandsBehind operator.entry.rightPower
  | .unary _ operand _ => operand.StandsBehind UnaryOperator.operandPower
  | .lambda _ body _ => body.StandsBehind lambdaBodyPower
  | .call (.mk callee _ _ _) => callee.StandsBefore PostfixOperator.call.leftPower
  | .flatten object _ _ => object.StandsBefore PostfixOperator.call.leftPower
  | .cellIndex object _ _ => object.StandsBefore PostfixOperator.cellIndex.leftPower
  | .member object _ _ => object.StandsBefore PostfixOperator.field.leftPower
  | .transpose operand _ _ => operand.StandsBefore PostfixOperator.transpose.leftPower
  | _ => True

end Expr

/-- The expressions directly in the name of a member. -/
def Field.parts : Field → List Expr
  | .named _ => []
  | .dynamic name => [name]

/-- The expression that writes a target. -/
def Target.expr : Target → Expr
  | .var name => .ident name
  | .field object name => .member object name object.pos
  | .cellIndex object args => .cellIndex object args object.pos
  | .index object args => object.apply args

/-- The expressions directly under an expression. -/
def Expr.parts : Expr → List Expr
  | .range start step stop _ => start :: step.toList ++ [stop]
  | .unary _ operand _ => [operand]
  | .binary left _ right _ => [left, right]
  | .matrix rows _ | .cell rows _ => rows.flatten
  | .call (.mk callee args outputs _) => callee :: args ++ (outputs.getD []).map Target.expr
  | .flatten object args _ | .cellIndex object args _ => object :: args
  | .member object field _ => object :: field.parts
  | .transpose operand _ _ => [operand]
  | .lambda _ body _ => [body]
  | .parens inner _ => [inner]
  | _ => []

/-- Every node of an expression has a property. -/
inductive Expr.Every (property : Expr → Prop) : Expr → Prop where
  | node {expr : Expr} : property expr → (∀ part ∈ expr.parts, part.Every property) →
    expr.Every property

/-- Every operator in an expression has the operands that the table of precedence gives to it. -/
def Expr.WellGrouped (expr : Expr) : Prop := expr.Every Expr.Grouped

namespace Expr

/-- A node is grouped throughout when it and its parts are. -/
theorem WellGrouped.node {expr : Expr} (here : expr.Grouped)
    (parts : ∀ part ∈ expr.parts, part.WellGrouped) : expr.WellGrouped := Every.node here parts

/-- A tree without operators on its left spine can stand behind any operator. -/
theorem standsBehind_of_nil {right : Expr} (closed : right.leftSpine = []) (power : Nat) :
    right.StandsBehind power := by
  simp [StandsBehind, closed]

/-- A range begins with an operator of the power of the colon, which no larger power takes. -/
theorem StandsBehind.isRange {right : Expr} {power : Nat} (behind : right.StandsBehind power)
    (tight : InfixOperator.colon.leftPower < power) : right.isRange = false := by
  cases right with
  | range start step stop pos =>
    have loose : power ≤ InfixOperator.colon.leftPower := behind _ (.head _)
    omega
  | _ => rfl

variable {left right : Expr} {operator : InfixOperator} {pos : Position}

/-- The left spine of a node of an infix operator goes on with that of its left operand. -/
theorem standsBehind_infixNode {kind : Kind} (entry : kind.infixOperator? = some operator)
    {power : Nat} (strong : power ≤ operator.leftPower) (behind : left.StandsBehind power) :
    (infixNode operator left right pos).StandsBehind power := by
  obtain ⟨rfl, rfl⟩ | ⟨binary, rfl, rfl⟩ := Kind.infixOperator?_eq_some entry
  · change (left.rangeTo right pos).StandsBehind power
    unfold rangeTo
    split
    · exact behind
    · exact List.forall_mem_cons.mpr ⟨strong, behind⟩
  · exact List.forall_mem_cons.mpr ⟨strong, behind⟩

/-- The right spine of a node of an infix operator goes on with that of its right operand. -/
theorem rightSpine_infixNode {kind : Kind} (entry : kind.infixOperator? = some operator) :
    (infixNode operator left right pos).rightSpine = operator.rightPower :: right.rightSpine := by
  obtain ⟨rfl, rfl⟩ | ⟨binary, rfl, rfl⟩ := Kind.infixOperator?_eq_some entry
  · change (left.rangeTo right pos).rightSpine = _
    unfold rangeTo
    split <;> rfl
  · rfl

/-- A second colon keeps the operands of a range grouped: the old stop, which becomes the step,
could stand in front of the colon. -/
theorem WellGrouped.rangeTo (leftGrouped : left.WellGrouped) (rightGrouped : right.WellGrouped)
    (before : left.StandsBefore InfixOperator.colon.leftPower)
    (behind : right.StandsBehind InfixOperator.colon.rightPower) :
    (left.rangeTo right pos).WellGrouped := by
  have bare : right.isRange = false := behind.isRange (by decide)
  unfold Expr.rangeTo
  split
  · next start stop first =>
    obtain ⟨⟨startBefore, startLong, -, stopBehind, stopBare⟩, parts⟩ := leftGrouped
    have stopBefore : stop.StandsBefore InfixOperator.colon.leftPower :=
      fun power inside => before power (.tail _ inside)
    refine .node ⟨startBefore, startLong, ?_, behind, bare⟩ ?_
    · rintro middle ⟨⟩
      exact ⟨stopBefore, stopBehind, stopBare⟩
    · simp only [Expr.parts, Option.toList_none, Option.toList_some, List.cons_append,
        List.nil_append, List.forall_mem_cons] at parts ⊢
      exact ⟨parts.1, parts.2.1, rightGrouped, by simp⟩
  · next long =>
    have notShort : left.isShortRange = false := by
      cases left with
      | range start step stop first =>
        cases step with
        | none => exact absurd rfl (long start stop first)
        | some => rfl
      | _ => rfl
    refine .node ⟨before, notShort, by simp, behind, bare⟩ ?_
    simp only [Expr.parts, Option.toList_none, List.cons_append, List.nil_append,
      List.forall_mem_cons]
    exact ⟨leftGrouped, rightGrouped, by simp⟩

/-- A node of an infix operator between grouped operands is grouped. -/
theorem WellGrouped.infixNode {kind : Kind} (entry : kind.infixOperator? = some operator)
    (leftGrouped : left.WellGrouped) (rightGrouped : right.WellGrouped)
    (before : left.StandsBefore operator.leftPower)
    (behind : right.StandsBehind operator.rightPower) :
    (infixNode operator left right pos).WellGrouped := by
  obtain ⟨rfl, rfl⟩ | ⟨binary, rfl, rfl⟩ := Kind.infixOperator?_eq_some entry
  · exact leftGrouped.rangeTo rightGrouped before behind
  · change (Expr.binary left binary right pos).WellGrouped
    exact .node ⟨before, behind⟩ (by simpa [Expr.parts] using ⟨leftGrouped, rightGrouped⟩)

/-- A call or subscript of grouped parts is grouped. -/
theorem WellGrouped.apply {callee : Expr} {args : List Expr} (calleeGrouped : callee.WellGrouped)
    (before : callee.StandsBefore PostfixOperator.call.leftPower)
    (grouped : ∀ arg ∈ args, arg.WellGrouped) : (callee.apply args).WellGrouped := by
  unfold Expr.apply
  split
  · exact .node before (List.forall_mem_cons.mpr ⟨calleeGrouped, grouped⟩)
  · exact .node before (by simpa [Expr.parts] using ⟨calleeGrouped, grouped⟩)

/-- The spines of a call or subscript. -/
theorem spines_apply (callee : Expr) (args : List Expr) :
    (callee.apply args).leftSpine = PostfixOperator.call.leftPower :: callee.leftSpine ∧
      (callee.apply args).rightSpine = [] := by
  unfold Expr.apply
  split <;> exact ⟨rfl, rfl⟩

end Expr

end MatlabFront
