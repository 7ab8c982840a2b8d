import MatlabFront.Proofs.Expression.Grouping
import MatlabFront.Proofs.Tree.Relocate

/-!
# Trees that can be written down

Not every tree is the tree of some tokens: some nodes only come about in certain places, and a few
combinations are read as something else. `Shaped` says which trees remain apart from the grouping of
operators, and `unplaced` forgets the positions in a tree, which its tokens decide.
-/

namespace MatlabFront

namespace Expr

/-- A tree is a bare colon. -/
def isColon : Expr → Bool
  | .colon _ => true
  | _ => false

/-- A tree is a transpose, not in parentheses. -/
def isTranspose : Expr → Bool
  | .transpose .. => true
  | _ => false

/-- The last token of a tree is a transpose mark. -/
def endsInMark : Expr → Bool
  | .transpose .. => true
  | .range _ _ stop _ => stop.endsInMark
  | .binary _ _ right _ => right.endsInMark
  | .unary _ operand _ => operand.endsInMark
  | .lambda _ body _ => body.endsInMark
  | _ => false

/-- A tree can be written, inside of some bracket or not. The word `end` stands inside of brackets
only, and a bare colon is a whole argument of a subscript. A lone bare colon in parentheses flattens
its object, and transpose marks behind each other are those of one node. No row is empty, no call
has outputs, and a tilde is no name. -/
inductive Shaped : Bool → Expr → Prop where
  | ident {inside : Bool} {name : Ident} : name.name ≠ "~" → Shaped inside (.ident name)
  | number {inside : Bool} {text : String} {pos : Position} : Shaped inside (.number text pos)
  | string {inside : Bool} {value : String} {pos : Position} : Shaped inside (.string value pos)
  | lastIndex {pos : Position} : Shaped true (.lastIndex pos)
  | shortRange {inside : Bool} {start stop : Expr} {pos : Position} :
    Shaped inside start → Shaped inside stop → Shaped inside (.range start none stop pos)
  | longRange {inside : Bool} {start step stop : Expr} {pos : Position} :
    Shaped inside start → Shaped inside step → Shaped inside stop →
      Shaped inside (.range start (some step) stop pos)
  | unary {inside : Bool} {operator : UnaryOperator} {operand : Expr} {pos : Position} :
    Shaped inside operand → Shaped inside (.unary operator operand pos)
  | binary {inside : Bool} {left right : Expr} {operator : BinaryOperator} {pos : Position} :
    Shaped inside left → Shaped inside right → Shaped inside (.binary left operator right pos)
  | matrix {inside : Bool} {rows : List (List Expr)} {pos : Position} :
    (∀ row ∈ rows, row ≠ []) → (∀ row ∈ rows, ∀ element ∈ row, Shaped true element) →
      Shaped inside (.matrix rows pos)
  | cell {inside : Bool} {rows : List (List Expr)} {pos : Position} :
    (∀ row ∈ rows, row ≠ []) → (∀ row ∈ rows, ∀ element ∈ row, Shaped true element) →
      Shaped inside (.cell rows pos)
  | call {inside : Bool} {callee : Expr} {args : List Expr} {pos : Position} :
    Shaped inside callee → (∀ colon, args ≠ [.colon colon]) →
      (∀ arg ∈ args, arg.isColon = false → Shaped true arg) →
      Shaped inside (.call (.mk callee args none pos))
  | flatten {inside : Bool} {object : Expr} {colon pos : Position} :
    Shaped inside object → Shaped inside (.flatten object [.colon colon] pos)
  | cellIndex {inside : Bool} {object : Expr} {args : List Expr} {pos : Position} :
    Shaped inside object → (∀ arg ∈ args, arg.isColon = false → Shaped true arg) →
      Shaped inside (.cellIndex object args pos)
  | named {inside : Bool} {object : Expr} {name : Ident} {pos : Position} :
    Shaped inside object → Shaped inside (.member object (.named name) pos)
  | dynamic {inside : Bool} {object name : Expr} {pos : Position} :
    Shaped inside object → Shaped true name → Shaped inside (.member object (.dynamic name) pos)
  | transpose {inside : Bool} {operand : Expr} {marks : String} {pos : Position} :
    Shaped inside operand → operand.isTranspose = false →
      Shaped inside (.transpose operand marks pos)
  | lambda {inside : Bool} {params : List Param} {body : Expr} {pos : Position} :
    Shaped inside body → Shaped inside (.lambda params body pos)
  | handle {inside : Bool} {function : Ident} {pos : Position} :
    Shaped inside (.handle function pos)
  | parens {inside : Bool} {inner : Expr} {pos : Position} :
    Shaped true inner → Shaped inside (.parens inner pos)

/-- The operand of a transpose is a transpose itself as soon as it ends in a mark. -/
theorem WellGrouped.isTranspose_of_endsInMark {operand : Expr} (grouped : operand.WellGrouped)
    (before : operand.StandsBefore PostfixOperator.transpose.leftPower)
    (marked : operand.endsInMark = true) : operand.isTranspose = true := by
  fun_induction endsInMark operand with
  | case1 => rfl
  | case2 start step stop pos ih =>
    have strong : PostfixOperator.transpose.leftPower < InfixOperator.colon.rightPower :=
      before _ (.head _)
    exact absurd strong (by decide)
  | case3 left operator right pos ih =>
    obtain ⟨⟨-, behind⟩, parts⟩ := grouped
    have strong : PostfixOperator.transpose.leftPower < operator.entry.rightPower :=
      before _ (.head _)
    have transposed : right.isTranspose = true :=
      ih (parts right (by simp [Expr.parts])) (fun power inside => before power (.tail _ inside))
        marked
    cases right with
    | transpose inner marks pos =>
      have weak : operator.entry.rightPower ≤ PostfixOperator.transpose.leftPower :=
        behind _ (.head _)
      omega
    | _ => cases transposed
  | case4 operator operand pos ih =>
    have strong : PostfixOperator.transpose.leftPower < UnaryOperator.operandPower :=
      before _ (.head _)
    exact absurd strong (by decide)
  | case5 params body pos ih =>
    have strong : PostfixOperator.transpose.leftPower < lambdaBodyPower := before _ (.head _)
    exact absurd strong (by decide)
  | case6 => cases marked

end Expr

/-- A move that forgets where something stood. -/
@[simp] def Position.forget (_ : Position) : Position := .origin

/-- A name without its position. -/
abbrev Ident.unplaced (name : Ident) : Ident := name.relocate .forget

/-- A parameter without its position. -/
abbrev Param.unplaced (param : Param) : Param := param.relocate .forget

/-- A tree without the positions in it. -/
abbrev Expr.unplaced (expr : Expr) : Expr := expr.relocate .forget

/-- Trees without the positions in them. -/
abbrev unplacedAll (exprs : List Expr) : List Expr := exprs.map (Expr.relocate .forget)

/-- Rows of trees without the positions in them. -/
abbrev unplacedRows (rows : List (List Expr)) : List (List Expr) :=
  rows.map (List.map (Expr.relocate .forget))

/-- A tree without positions is the same wherever it stood. -/
theorem Expr.unplaced_relocate (move : Position → Position) (expr : Expr) :
    (expr.relocate move).unplaced = expr.unplaced :=
  expr.relocate_relocate .forget

namespace Expr

variable (move : Position → Position)

/-- Positions do not matter for what a short range is. -/
@[simp] theorem isShortRange_relocate (expr : Expr) :
    (expr.relocate move).isShortRange = expr.isShortRange := by
  cases expr with
  | range start step stop => cases step <;> rfl
  | _ => rfl

/-- Positions do not matter for what a bare colon is. -/
@[simp] theorem isColon_relocate (expr : Expr) : (expr.relocate move).isColon = expr.isColon := by
  cases expr with
  | range start step stop => cases step <;> rfl
  | _ => rfl

/-- A bare colon is known. -/
theorem eq_colon_of_isColon {expr : Expr} (colon : expr.isColon = true) :
    ∃ pos, expr = .colon pos := by
  cases expr with
  | colon pos => exact ⟨pos, rfl⟩
  | _ => cases colon

end Expr

end MatlabFront
