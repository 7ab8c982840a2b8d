import MatlabFront.Proofs.Expression.Steps
import MatlabFront.Proofs.Expression.WellGrouped

/-!
# Where a bare colon stands

A colon is taken for a whole subscript when the innermost bracket is a group and what follows is a
comma or a closing bracket. Nothing is asked of what stands in front of it. So a colon ends what
stands between two commas of a group, or between its brackets, but it need not be all of that: it
may be the last operand of an operator, and the group may be no list of arguments.
-/

namespace MatlabFront

namespace Expr

/-- What a part is to the expression directly above it. -/
inductive Role where
  /-- An argument of a call or subscript. -/
  | subscript
  /-- All that stands in parentheses: the content of a pair of them, or the name of a member. -/
  | enclosed
  /-- The operand with which the expression ends, outside of its brackets. -/
  | last
  /-- What is followed by more of the expression, and the elements of literals. -/
  | inner

/-- The parts of an expression with what they are to it. -/
def roles : Expr → List (Role × Expr)
  | .range start step stop _ =>
    (.inner, start) :: step.toList.map (.inner, ·) ++ [(.last, stop)]
  | .unary _ operand _ => [(.last, operand)]
  | .binary left _ right _ => [(.inner, left), (.last, right)]
  | .matrix rows _ | .cell rows _ => rows.flatten.map (.inner, ·)
  | .call (.mk callee args outputs _) =>
    (.inner, callee) :: args.map (.subscript, ·) ++
      (outputs.getD []).map fun target => (.inner, target.expr)
  | .flatten object args _ | .cellIndex object args _ =>
    (.inner, object) :: args.map (.subscript, ·)
  | .member object field _ => (.inner, object) :: field.parts.map (.enclosed, ·)
  | .transpose operand _ _ => [(.inner, operand)]
  | .lambda _ body _ => [(.last, body)]
  | .parens inner _ => [(.enclosed, inner)]
  | _ => []

/-- Every part of an expression is something to it. -/
theorem map_roles (expr : Expr) : expr.roles.map Prod.snd = expr.parts := by
  unfold roles parts
  split <;> simp [Function.comp_def]

/-- Every colon in an expression stands where a rule allows it. The rule says of a part whether it
may be a colon, from what it is to its expression and whether that could be one itself. -/
inductive ColonsAt (rule : Role → Bool → Bool) : Bool → Expr → Prop where
  | colon (pos : Position) : ColonsAt rule true (.colon pos)
  | node {allowed : Bool} {expr : Expr} : (∀ pos, expr ≠ .colon pos) →
    (∀ part ∈ expr.roles, part.2.ColonsAt rule (rule part.1 allowed)) → ColonsAt rule allowed expr

/-- A colon is a whole subscript. -/
def Role.isSubscript : Role → Bool → Bool
  | .subscript, _ => true
  | _, _ => false

/-- A colon ends a subscript, or what stands in parentheses. -/
def Role.endsGroup : Role → Bool → Bool
  | .subscript, _ | .enclosed, _ => true
  | .last, allowed => allowed
  | .inner, _ => false

/-- A colon is neither all that stands in parentheses nor the operand with which an expression
ends. -/
def Role.isApart : Role → Bool → Bool
  | .subscript, _ | .inner, _ => true
  | .enclosed, _ | .last, _ => false

section

variable {expr : Expr} {allowed wider : Bool} {rule other both : Role → Bool → Bool}

/-- Colons that stand where a rule allows them stand where a wider one does. -/
theorem ColonsAt.mono (stand : expr.ColonsAt rule allowed) (root : allowed ≤ wider)
    (rules : ∀ role {one more : Bool}, one ≤ more → rule role one ≤ other role more) :
    expr.ColonsAt other wider := by
  induction stand generalizing wider with
  | colon pos =>
    obtain rfl : wider = true := root rfl
    exact .colon pos
  | node plain _ ih => exact .node plain fun part inside => ih part inside (rules part.1 root)

/-- Colons that stand where each of two rules allows them stand where both do. -/
theorem ColonsAt.and (stand : expr.ColonsAt rule allowed) (again : expr.ColonsAt other wider)
    (rules : ∀ role one more, both role (one && more) = (rule role one && other role more)) :
    expr.ColonsAt both (allowed && wider) := by
  induction stand generalizing wider with
  | colon pos =>
    cases again with
    | colon => exact .colon pos
    | node plain _ => exact absurd rfl (plain pos)
  | node plain _ ih =>
    cases again with
    | colon pos => exact absurd rfl (plain pos)
    | node _ parts =>
      refine .node plain fun part inside => ?_
      rw [rules]
      exact ih part inside (parts part inside)

end

/-- Every colon in an expression ends some group, which may end behind the expression itself. -/
def ColonsEnd (allowed : Bool) (expr : Expr) : Prop := expr.ColonsAt Role.endsGroup allowed

variable {allowed : Bool} {expr left right callee : Expr} {args : List Expr} {pos : Position}

/-- An expression without parts, and no colon, holds none. -/
theorem ColonsEnd.atom (parts : expr.parts = []) (other : ∀ pos, expr ≠ .colon pos) :
    expr.ColonsEnd allowed := by
  have none : expr.roles = [] := List.map_eq_nil_iff.mp (expr.map_roles.trans parts)
  exact .node other (by simp [none])

/-- A group may end behind an expression whose colons end groups within it. -/
theorem ColonsEnd.weaken (ends : expr.ColonsEnd false) : expr.ColonsEnd allowed := by
  refine ColonsAt.mono ends (Bool.false_le allowed) fun role one more le => ?_
  cases role with
  | subscript | enclosed | inner => exact Bool.le_refl _
  | last => exact le

/-- An operand with which an expression ends brings its colons along. -/
theorem ColonsEnd.binary {operator : BinaryOperator} (leftEnds : left.ColonsEnd false)
    (rightEnds : right.ColonsEnd allowed) :
    (Expr.binary left operator right pos).ColonsEnd allowed :=
  .node (by simp) (by simpa [roles] using ⟨leftEnds, rightEnds⟩)

/-- A range brings along the colons of its last part, also when it takes a step late. -/
theorem ColonsEnd.rangeTo (leftEnds : left.ColonsEnd false)
    (rightEnds : right.ColonsEnd allowed) : (left.rangeTo right pos).ColonsEnd allowed := by
  unfold Expr.rangeTo
  split
  · cases leftEnds with
    | node _ parts =>
      simp only [roles, Option.toList_none, List.map_nil, List.cons_append, List.nil_append,
        List.forall_mem_cons] at parts
      refine .node (by simp) ?_
      simp only [roles, Option.toList_some, List.map_cons, List.map_nil, List.cons_append,
        List.nil_append, List.forall_mem_cons]
      exact ⟨parts.1, parts.2.1, rightEnds, by simp⟩
  · refine .node (by simp) ?_
    simp only [roles, Option.toList_none, List.map_nil, List.cons_append, List.nil_append,
      List.forall_mem_cons]
    exact ⟨leftEnds, rightEnds, by simp⟩

/-- The node of an infix operator brings along the colons of its right operand. -/
theorem ColonsEnd.infixNode (operator : InfixOperator) (leftEnds : left.ColonsEnd false)
    (rightEnds : right.ColonsEnd allowed) :
    (infixNode operator left right pos).ColonsEnd allowed := by
  unfold Expr.infixNode
  split
  · exact leftEnds.binary rightEnds
  · exact leftEnds.rangeTo rightEnds

/-- In a subscript a group ends behind each argument, and none behind the callee. -/
theorem ColonsEnd.subscripts (calleeEnds : callee.ColonsEnd false)
    (argsEnd : ∀ arg ∈ args, arg.ColonsEnd true) :
    ∀ part ∈ (Role.inner, callee) :: args.map (Role.subscript, ·),
      part.2.ColonsAt Role.endsGroup (Role.endsGroup part.1 allowed) :=
  List.forall_mem_cons.mpr ⟨calleeEnds, List.forall_mem_map.mpr argsEnd⟩

/-- In a call a group ends behind each argument, and none behind the callee or a target. -/
theorem ColonsEnd.call {outputs : Option (List Target)} (calleeEnds : callee.ColonsEnd false)
    (argsEnd : ∀ arg ∈ args, arg.ColonsEnd true)
    (outputsEnd : ∀ target ∈ outputs.getD [], target.expr.ColonsEnd false) :
    (Expr.call (.mk callee args outputs pos)).ColonsEnd allowed :=
  .node (by simp) (List.forall_mem_append.mpr
    ⟨calleeEnds.subscripts argsEnd, List.forall_mem_map.mpr outputsEnd⟩)

/-- The same of a subscript in parentheses, which flattens its object if a colon is all of it. -/
theorem ColonsEnd.apply (calleeEnds : callee.ColonsEnd false)
    (argsEnd : ∀ arg ∈ args, arg.ColonsEnd true) : (callee.apply args).ColonsEnd allowed := by
  unfold Expr.apply
  split
  · exact .node (by simp) (calleeEnds.subscripts argsEnd)
  · exact calleeEnds.call argsEnd (by simp)

/-- The elements of literals, none of which is a colon, make up one. -/
theorem ColonsEnd.elements {row : List Expr} {rows : List (List Expr)}
    (ends : ∀ element ∈ row ++ rows.flatten, element.ColonsEnd false) :
    ∀ part ∈ (Parser.rowsOf row rows).flatten.map (Role.inner, ·),
      part.2.ColonsAt Role.endsGroup (Role.endsGroup part.1 allowed) := by
  rw [Grammar.flatten_rowsOf]
  exact List.forall_mem_map.mpr ends

end Expr

/-- The next token ends what stands in a group. -/
def State.endsGroup (s : State) : Bool :=
  [some Kind.comma, some .rightParen, some .rightBrace].contains s.peekKind

/-- A colon that stands alone is read in a group, of which nothing more is left. -/
theorem State.endsGroup_of_colonAlone {s : State} {nesting : Nesting}
    (alone : s.colonAlone nesting = true) : nesting = .group ∧ s.next.endsGroup = true := by
  cases nesting with
  | group => exact ⟨rfl, alone⟩
  | outside | elements => cases alone

/-- No operator ends a group. -/
theorem State.endsGroup_of_operator {s : State} {token : Token} (known : s.peek = some token)
    {left : Nat} (operator : token.kind.leftPower? = some left) : s.endsGroup = false := by
  rw [State.endsGroup, State.peekKind_of_peek known]
  cases kind : token.kind <;> first | rfl | (rw [kind] at operator; cases operator)

namespace Grammar

/-- Where the colons stand in a tree that is read up to a state: they end groups within it, or it
is in a group that ends there. -/
def ColonsEndAt (nesting : Nesting) (whole : Expr) (s : State) : Prop :=
  whole.ColonsEnd false ∨ nesting = .group ∧ s.endsGroup = true ∧ whole.ColonsEnd true

/-- What is known of the colons in a phrase once it has been read. -/
def Phrase.ColonsEnd (s final : State) : Phrase → Prop
  | .expression nesting _ whole | .operand nesting whole | .handle nesting _ whole =>
    ColonsEndAt nesting whole final
  | .operators nesting _ left whole =>
    ColonsEndAt nesting left s → ColonsEndAt nesting whole final
  | .elements _ _ row rows => ∀ element ∈ row ++ rows.flatten, element.ColonsEnd false
  | .suffix left _ whole => left.ColonsEnd false → whole.ColonsEnd false
  | .arguments _ args | .argumentsFrom _ args => ∀ arg ∈ args, arg.ColonsEnd true
  | .parameters _ | .parametersFrom _ => True

variable {nesting : Nesting} {whole made : Expr} {s final : State}

/-- A tree that ends with another has its colons where that has them. -/
theorem ColonsEndAt.map (ends : ColonsEndAt nesting whole s)
    (made_of : ∀ allowed, whole.ColonsEnd allowed → made.ColonsEnd allowed) :
    ColonsEndAt nesting made s :=
  Or.imp (made_of false) (fun ⟨group, ended, open_⟩ => ⟨group, ended, made_of true open_⟩) ends

/-- In front of an operator no group ends. -/
theorem ColonsEndAt.before {token : Token} (ends : ColonsEndAt nesting whole s)
    (known : s.peek = some token) {left : Nat} (operator : token.kind.leftPower? = some left) :
    whole.ColonsEnd false := by
  obtain closed | ⟨-, ended, -⟩ := ends
  · exact closed
  · rw [State.endsGroup_of_operator known operator] at ended
    cases ended

/-- Outside of groups every colon ends a group within the tree. -/
theorem ColonsEndAt.closed (ends : ColonsEndAt nesting whole s) (other : nesting ≠ .group) :
    whole.ColonsEnd false :=
  ends.resolve_right fun ⟨group, _⟩ => other group

/-- In brackets of a group the tree may end with a colon. -/
theorem ColonsEndAt.grouped (ends : ColonsEndAt nesting whole s) : whole.ColonsEnd true :=
  ends.elim .weaken fun ⟨_, _, open_⟩ => open_

/-- The colons in a phrase end groups. -/
theorem Reads.colonsEnd {phrase : Phrase} (reads : Reads phrase s final) :
    phrase.ColonsEnd s final := by
  induction reads with
  | expression _ _ head tail => exact tail head
  | stop => exact id
  | postfixed known _ entry _ _ _ head tail =>
    exact fun left => tail (.inl (head (left.before known (Kind.leftPower?_of_postfix entry))))
  | infixed known _ entry _ _ _ head tail =>
    intro left
    have closed := left.before known (Kind.leftPower?_of_infix entry)
    exact tail (ColonsEndAt.map head fun _ right => closed.infixNode _ right)
  | ident | number | string | lastIndex | ignored | named => exact .inl (.atom rfl (by simp))
  | colon _ _ alone =>
    obtain ⟨group, ended⟩ := State.endsGroup_of_colonAlone alone
    exact .inr ⟨group, ended, .colon _⟩
  | unary _ _ _ _ ih =>
    exact ColonsEndAt.map ih fun _ operand => .node (by simp) (List.forall_mem_singleton.mpr operand)
  | atSign _ _ _ ih => exact ih
  | parens _ _ _ _ ih =>
    exact .inl (.node (by simp) (List.forall_mem_singleton.mpr ih.grouped))
  | matrix _ _ _ ih | cell _ _ _ ih => exact .inl (.node (by simp) (Expr.ColonsEnd.elements ih))
  | lambda _ _ _ _ body =>
    exact ColonsEndAt.map body fun _ inside =>
      .node (by simp) (List.forall_mem_singleton.mpr inside)
  | close | noArguments => simp [Phrase.ColonsEnd]
  | rowEnd _ _ _ _ ih =>
    change ∀ element ∈ [] ++ (Parser.rowsOf _ _).flatten, element.ColonsEnd false
    rwa [List.nil_append, flatten_rowsOf]
  | comma _ _ _ ih => exact ih
  | element _ _ _ _ _ head tail =>
    exact List.forall_mem_cons.mpr ⟨ColonsEndAt.closed head (by simp), tail⟩
  | call _ _ _ ih => exact fun left => left.apply ih
  | cellIndex _ _ _ ih => exact fun left => .node (by simp) (left.subscripts ih)
  | member => exact fun left => .node (by simp) (List.forall_mem_singleton.mpr left)
  | dynamic _ _ _ _ _ ih =>
    exact fun left => .node (by simp)
      (List.forall_mem_cons.mpr ⟨left, List.forall_mem_singleton.mpr ih.grouped⟩)
  | transpose => exact fun left => .node (by simp) (List.forall_mem_singleton.mpr left)
  | arguments _ _ ih => exact ih
  | argument _ _ _ head tail => exact List.forall_mem_cons.mpr ⟨ColonsEndAt.grouped head, tail⟩
  | lastArgument _ _ _ ih => exact List.forall_mem_singleton.mpr (ColonsEndAt.grouped ih)
  | noParameters | parameters | parameter | lastParameter => trivial

end Grammar

end MatlabFront
