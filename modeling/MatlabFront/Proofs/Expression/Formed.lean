import Mathlib.Tactic.ByContra
import Mathlib.Logic.Basic
import MatlabFront.Proofs.Expression.Consumed
import MatlabFront.Proofs.Expression.Shape

/-!
# The form of expressions that are read

Every node that is read has a form of its own. The rows of a literal are not empty, a call has no
outputs and is no subscript that flattens, a run of transpose marks is taken as a whole, and an
`end` stands inside some brackets. While the operators behind an operand are read, no mark is left
behind a transpose, so that the next run of marks finds an operand which is none.
-/

namespace MatlabFront

namespace Expr

/-- The form of a node. The text of its marks is asked for only if the marks of the input have one. -/
def Formed (marked : Prop) : Expr → Prop
  | .matrix rows _ | .cell rows _ => ∀ row ∈ rows, row ≠ []
  | .call (.mk _ args outputs _) => outputs = none ∧ ∀ pos, args ≠ [.colon pos]
  | .flatten _ args _ => ∃ pos, args = [.colon pos]
  | .transpose operand marks _ => operand.isTranspose = false ∧ (marked → marks ≠ "")
  | _ => True

/-- Every node of an expression has its form. -/
def WellFormed (marked : Prop) (expr : Expr) : Prop := expr.Every (Formed marked)

/-- The expressions directly under an expression that stand in none of its brackets. -/
def openParts : Expr → List Expr
  | .range start step stop _ => start :: step.toList ++ [stop]
  | .unary _ operand _ => [operand]
  | .binary left _ right _ => [left, right]
  | .call (.mk callee _ _ _) => [callee]
  | .flatten object _ _ | .cellIndex object _ _ | .member object _ _ => [object]
  | .transpose operand _ _ => [operand]
  | .lambda _ body _ => [body]
  | _ => []

/-- Every `end` in an expression stands in some of its brackets: in parentheses, in a list of
arguments, in the name of a member or in a literal. -/
inductive EndsEnclosed : Expr → Prop where
  | node {expr : Expr} : (∀ pos, expr ≠ .lastIndex pos) →
    (∀ part ∈ expr.openParts, part.EndsEnclosed) → expr.EndsEnclosed

/-- A name is well formed. -/
theorem wellFormed_ident {marked : Prop} (name : Ident) : (ident name).WellFormed marked :=
  .node trivial (by simp [parts])

/-- A name holds no `end`. -/
theorem endsEnclosed_ident (name : Ident) : (ident name).EndsEnclosed :=
  .node (by simp) (by simp [openParts])

variable {marked : Prop} {left right callee : Expr} {args : List Expr} {pos : Position}

/-- A range of well-formed parts is well formed, also when it takes a step late. -/
theorem WellFormed.rangeTo (leftFormed : left.WellFormed marked)
    (rightFormed : right.WellFormed marked) : (left.rangeTo right pos).WellFormed marked := by
  unfold Expr.rangeTo
  split
  · obtain ⟨-, inside⟩ := leftFormed
    refine .node trivial ?_
    simp only [parts, Option.toList_none, Option.toList_some, List.cons_append, List.nil_append,
      List.forall_mem_cons] at inside ⊢
    exact ⟨inside.1, inside.2.1, rightFormed, by simp⟩
  · refine .node trivial ?_
    simp only [parts, Option.toList_none, List.cons_append, List.nil_append, List.forall_mem_cons]
    exact ⟨leftFormed, rightFormed, by simp⟩

/-- A range encloses the `end`s that its parts enclose, also when it takes a step late. -/
theorem EndsEnclosed.rangeTo (leftEnds : left.EndsEnclosed) (rightEnds : right.EndsEnclosed) :
    (left.rangeTo right pos).EndsEnclosed := by
  unfold Expr.rangeTo
  split
  · obtain ⟨-, inside⟩ := leftEnds
    refine .node (by simp) ?_
    simp only [openParts, Option.toList_none, Option.toList_some, List.cons_append,
      List.nil_append, List.forall_mem_cons] at inside ⊢
    exact ⟨inside.1, inside.2.1, rightEnds, by simp⟩
  · refine .node (by simp) ?_
    simp only [openParts, Option.toList_none, List.cons_append, List.nil_append,
      List.forall_mem_cons]
    exact ⟨leftEnds, rightEnds, by simp⟩

/-- A call or subscript is well formed whatever its arguments are: a lone colon makes it one that
flattens its object. -/
theorem WellFormed.apply (calleeFormed : callee.WellFormed marked)
    (argsFormed : ∀ arg ∈ args, arg.WellFormed marked) : (callee.apply args).WellFormed marked := by
  unfold Expr.apply
  split
  · next colon => exact .node ⟨colon, rfl⟩ (List.forall_mem_cons.mpr ⟨calleeFormed, argsFormed⟩)
  · next several =>
    refine .node ⟨rfl, several⟩ ?_
    simpa [parts] using ⟨calleeFormed, argsFormed⟩

/-- A subscript in parentheses encloses whatever its arguments hold. -/
theorem EndsEnclosed.apply (calleeEnds : callee.EndsEnclosed) :
    (callee.apply args).EndsEnclosed := by
  unfold Expr.apply
  split <;> exact .node (by simp) (List.forall_mem_singleton.mpr calleeEnds)

/-- A node of an infix operator is none of a transpose. -/
theorem isTranspose_infixNode (operator : InfixOperator) :
    (infixNode operator left right pos).isTranspose = false := by
  unfold infixNode rangeTo
  split
  · rfl
  · split <;> rfl

/-- The node of an infix operator is well formed when its operands are. -/
theorem WellFormed.infixNode (operator : InfixOperator) (leftFormed : left.WellFormed marked)
    (rightFormed : right.WellFormed marked) :
    (infixNode operator left right pos).WellFormed marked := by
  unfold Expr.infixNode
  split
  · exact .node trivial (by simpa [parts] using ⟨leftFormed, rightFormed⟩)
  · exact leftFormed.rangeTo rightFormed

/-- The node of an infix operator encloses the `end`s that its operands enclose. -/
theorem EndsEnclosed.infixNode (operator : InfixOperator) (leftEnds : left.EndsEnclosed)
    (rightEnds : right.EndsEnclosed) : (infixNode operator left right pos).EndsEnclosed := by
  unfold Expr.infixNode
  split
  · exact .node (by simp) (by simpa [openParts] using ⟨leftEnds, rightEnds⟩)
  · exact leftEnds.rangeTo rightEnds

end Expr

/-- Every transpose mark that is left has a text. -/
def State.Marked (s : State) : Prop :=
  ∀ token ∈ s.rest, token.kind.isMark = true → token.text ≠ ""

/-- Marks that are left later are among those that are left now. -/
theorem State.Marked.of_reaches {s final : State} (known : s.Marked) (reaches : s.Reaches final) :
    final.Marked :=
  fun token inside => known token (reaches.suffix.subset inside)

/-- A run of marks that have texts has one. -/
theorem State.Marked.marks_ne {s : State} {token : Token} (known : s.Marked)
    (here : s.peek = some token) (mark : token.kind.isMark = true) : s.marks ≠ "" := by
  have rest := State.rest_of_peek here
  have text : token.text ≠ "" := known token (by simp [rest]) mark
  simp [State.marks, rest, mark, text]

namespace Grammar

/-- What holds of the form of a tree that is read up to a state. -/
structure Finished (marked : Prop) (nesting : Nesting) (whole : Expr) (s : State) : Prop where
  formed : whole.WellFormed marked
  ends : nesting = .outside → whole.EndsEnclosed
  /-- No mark is left behind a transpose. -/
  marks : whole.isTranspose = true → ∀ token, s.peek = some token → token.kind.isMark = false

/-- What is known of the form of a phrase once it has been read. -/
def Phrase.Forms (marked : Prop) (s final : State) : Phrase → Prop
  | .expression nesting _ whole | .operand nesting whole | .handle nesting _ whole =>
    Finished marked nesting whole final
  | .operators nesting _ left whole =>
    Finished marked nesting left s → Finished marked nesting whole final
  | .elements _ _ row rows =>
    (∀ element ∈ row ++ rows.flatten, element.WellFormed marked) ∧ ∀ row ∈ rows, row ≠ []
  | .suffix left _ whole =>
    ∀ nesting, Finished marked nesting left s → Finished marked nesting whole final
  | .arguments _ args | .argumentsFrom _ args => ∀ arg ∈ args, arg.WellFormed marked
  | .parameters _ | .parametersFrom _ => True

variable {marked : Prop} {nesting : Nesting} {whole : Expr} {s final : State}

/-- A node without open parts, and no transpose, is finished when it is well formed. -/
theorem Finished.of_closed (formed : whole.WellFormed marked) (open_parts : whole.openParts = [])
    (ends : ∀ pos, whole ≠ .lastIndex pos) (mark : whole.isTranspose = false) :
    Finished marked nesting whole s :=
  ⟨formed, fun _ => .node ends (by simp [open_parts]), by simp [mark]⟩

/-- A tree without parts, other than an `end`, is finished. -/
theorem Finished.of_atom (parts : whole.parts = []) (formed : whole.Formed marked)
    (open_parts : whole.openParts = []) (ends : ∀ pos, whole ≠ .lastIndex pos)
    (mark : whole.isTranspose = false) : Finished marked nesting whole s :=
  .of_closed (.node formed (by simp [parts])) open_parts ends mark

/-- A node with one open part is finished when that part is and the others are well formed. -/
theorem Finished.of_part {part : Expr} (finished : Finished marked nesting part s)
    (formed : whole.Formed marked) (open_parts : whole.openParts = [part])
    (parts : ∀ part ∈ whole.parts, part.WellFormed marked) (ends : ∀ pos, whole ≠ .lastIndex pos)
    (mark : whole.isTranspose = false) : Finished marked nesting whole final where
  formed := .node formed parts
  ends outside := .node ends (by simpa [open_parts] using finished.ends outside)
  marks transposed := by simp [mark] at transposed

/-- The node of an infix operator is finished when its operands are. -/
theorem Finished.infixNode {left right : Expr} {pos : Position} (operator : InfixOperator)
    (front : Finished marked nesting left s) (back : Finished marked nesting right final) :
    Finished marked nesting (.infixNode operator left right pos) final where
  formed := front.formed.infixNode operator back.formed
  ends outside := (front.ends outside).infixNode operator (back.ends outside)
  marks transposed := by simp [Expr.isTranspose_infixNode] at transposed

/-- A subscript in parentheses is finished when its callee is and its arguments are well formed. -/
theorem Finished.apply {callee : Expr} {args : List Expr} (front : Finished marked nesting callee s)
    (formed : ∀ arg ∈ args, arg.WellFormed marked) :
    Finished marked nesting (callee.apply args) final where
  formed := front.formed.apply formed
  ends outside := (front.ends outside).apply
  marks transposed := by
    unfold Expr.apply at transposed
    split at transposed <;> simp [Expr.isTranspose] at transposed

/-- A transpose takes all of its marks. Its operand is none, which would leave no mark behind. -/
theorem Finished.transpose {operand : Expr} {token : Token} (known : marked → s.Marked)
    (here : s.peek = some token) (mark : token.kind.isMark = true)
    (front : Finished marked nesting operand s) :
    Finished marked nesting (.transpose operand s.marks token.pos) (s.skip Kind.isMark) := by
  have single : operand.isTranspose = false := by
    by_contra transposed
    have none := front.marks (by simpa using transposed) token here
    rw [mark] at none
    cases none
  refine ⟨.node ⟨single, fun texts => (known texts).marks_ne here mark⟩
      (List.forall_mem_singleton.mpr front.formed),
    fun outside => .node (by simp) (List.forall_mem_singleton.mpr (front.ends outside)), ?_⟩
  intro _ later left
  have stops : (s.rest.dropWhile (·.kind.isMark)).head? = some later := left
  simpa [stops] using List.head?_dropWhile_not (p := (·.kind.isMark)) (l := s.rest)

/-- No row of a literal is empty when none behind its first is. -/
theorem rowsOf_filled {rows : List (List Expr)} (first : List Expr)
    (filled : ∀ row ∈ rows, row ≠ []) : ∀ row ∈ Parser.rowsOf first rows, row ≠ [] := by
  cases first with
  | nil => exact filled
  | cons element more =>
    exact List.forall_mem_cons.mpr ⟨List.cons_ne_nil element more, filled⟩

/-- Every phrase that is read has its form. -/
theorem Reads.forms {phrase : Phrase} (reads : Reads phrase s final) :
    (marked → s.Marked) → phrase.Forms marked s final := by
  induction reads with
  | expression operand _ head tail =>
    exact fun known => tail (fun texts => (known texts).of_reaches operand.reaches) (head known)
  | stop => exact fun _ finished => finished
  | postfixed _ _ _ _ suffix _ head tail =>
    intro known finished
    exact tail (fun texts => (known texts).of_reaches suffix.reaches) (head known _ finished)
  | @infixed _ _ _ _ _ _ operator s _ _ _ _ _ _ operand _ head tail =>
    intro known finished
    have behind := (State.Reaches.refl s).next
    have right := head fun texts => (known texts).of_reaches behind
    exact tail (fun texts => (known texts).of_reaches (behind.trans operand.reaches))
      (finished.infixNode operator right)
  | ident | number | string | colon | ignored | named =>
    exact fun _ => .of_atom rfl trivial rfl (by simp) rfl
  | lastIndex _ _ _ inside =>
    exact fun _ => ⟨.node trivial (by simp [Expr.parts]), fun outside => absurd outside inside,
      by simp [Expr.isTranspose]⟩
  | @unary _ _ _ _ s _ _ _ _ _ head =>
    intro known
    have operand := head fun texts => (known texts).of_reaches (State.Reaches.refl s).next
    exact operand.of_part trivial rfl (List.forall_mem_singleton.mpr operand.formed) (by simp) rfl
  | @atSign _ _ _ s _ _ _ _ head =>
    exact fun known => head fun texts => (known texts).of_reaches (State.Reaches.refl s).next
  | @parens _ inner _ s _ _ _ _ _ head =>
    intro known
    have inside := head fun texts => (known texts).of_reaches (State.Reaches.refl s).next
    exact .of_closed (.node trivial (List.forall_mem_singleton.mpr inside.formed)) rfl (by simp) rfl
  | @matrix _ row rows _ s _ _ _ _ head | @cell _ row rows _ s _ _ _ _ head =>
    intro known
    obtain ⟨elements, filled⟩ :=
      head fun texts => (known texts).of_reaches (State.Reaches.refl s).next
    refine .of_closed (.node (rowsOf_filled row filled) ?_) rfl (by simp) rfl
    simp only [Expr.parts, flatten_rowsOf]
    exact elements
  | lambda _ params _ _ tail =>
    intro known
    have body := tail fun texts => (known texts).of_reaches params.reaches
    exact body.of_part trivial rfl (List.forall_mem_singleton.mpr body.formed) (by simp) rfl
  | close => simp [Phrase.Forms]
  | @rowEnd _ _ _ row rows s _ _ _ _ _ head =>
    intro known
    obtain ⟨elements, filled⟩ :=
      head fun texts => (known texts).of_reaches (State.Reaches.refl s).next
    refine ⟨?_, rowsOf_filled row filled⟩
    rwa [List.nil_append, flatten_rowsOf]
  | @comma _ _ _ s _ _ _ _ head =>
    exact fun known => head fun texts => (known texts).of_reaches (State.Reaches.refl s).next
  | element _ _ _ first _ head tail =>
    intro known
    obtain ⟨elements, filled⟩ := tail fun texts => (known texts).of_reaches first.reaches
    exact ⟨List.forall_mem_cons.mpr ⟨(head known).formed, elements⟩, filled⟩
  | @call _ _ _ s _ _ _ _ head =>
    intro known nesting finished
    exact finished.apply (head fun texts => (known texts).of_reaches (State.Reaches.refl s).next)
  | @cellIndex _ _ _ s _ _ _ _ head =>
    intro known nesting finished
    have arguments := head fun texts => (known texts).of_reaches (State.Reaches.refl s).next
    exact finished.of_part trivial rfl (List.forall_mem_cons.mpr ⟨finished.formed, arguments⟩)
      (by simp) rfl
  | member =>
    intro _ nesting finished
    exact finished.of_part trivial rfl (List.forall_mem_singleton.mpr finished.formed) (by simp) rfl
  | @dynamic _ _ _ s _ _ _ _ _ _ head =>
    intro known nesting finished
    have inside := head fun texts => (known texts).of_reaches (State.Reaches.refl s).next.next
    have parts := List.forall_mem_cons.mpr
      ⟨finished.formed, List.forall_mem_singleton.mpr inside.formed⟩
    exact finished.of_part trivial rfl parts (by simp) rfl
  | transpose here mark => exact fun known nesting finished => finished.transpose known here mark
  | noArguments => simp [Phrase.Forms]
  | arguments _ _ head => exact head
  | @argument _ _ _ s s₁ _ first _ _ head tail =>
    intro known
    have behind := first.reaches.next
    exact List.forall_mem_cons.mpr
      ⟨(head known).formed, tail fun texts => (known texts).of_reaches behind⟩
  | lastArgument _ _ _ head => exact fun known => List.forall_mem_singleton.mpr (head known).formed
  | noParameters | parameters | parameter | lastParameter => exact fun _ => trivial

end Grammar

end MatlabFront
