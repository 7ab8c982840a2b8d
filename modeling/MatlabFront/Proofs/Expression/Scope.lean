import MatlabFront.Proofs.Expression.Grammar
import MatlabFront.Proofs.Expression.Grouping

/-!
# What an expression notes about its function

Reading an expression leaves the outputs of the enclosing function as they are, and notes a use of
`nargin` exactly when the name is used in the tree. Names that are only declared or that name a
member do not count.
-/

namespace MatlabFront

/-- A name is used in an expression. -/
inductive Expr.Uses (name : String) : Expr → Prop where
  | here (pos : Position) : Expr.Uses name (.ident ⟨name, pos⟩)
  | part {expr part : Expr} : part ∈ expr.parts → part.Uses name → expr.Uses name

/-- A name other than the tilde of an ignored output is used where it stands. -/
theorem Expr.uses_ident {name : String} {ident : Ident} :
    (Expr.ident ident).Uses name ↔ ident.name = name := by
  constructor
  · intro uses
    cases uses with
    | here => rfl
    | part inside => cases inside
  · rintro rfl
    exact .here ident.pos

/-- A name is used in a tree with parts when it is used in one of them. -/
theorem Expr.uses_iff_parts {name : String} {expr : Expr}
    (composed : ∀ ident, expr ≠ .ident ident) :
    expr.Uses name ↔ ∃ part ∈ expr.parts, part.Uses name := by
  constructor
  · intro uses
    cases uses with
    | here pos => exact absurd rfl (composed _)
    | part inside uses => exact ⟨_, inside, uses⟩
  · rintro ⟨part, inside, uses⟩
    exact .part inside uses

/-- The node of an infix operator uses the names of its operands. -/
theorem Expr.uses_infixNode {name : String} {operator : InfixOperator} {left right : Expr}
    {pos : Position} :
    (Expr.infixNode operator left right pos).Uses name ↔ left.Uses name ∨ right.Uses name := by
  unfold Expr.infixNode
  split
  · rw [Expr.uses_iff_parts (by simp)]
    simp [Expr.parts]
  · unfold Expr.rangeTo
    split
    · rw [Expr.uses_iff_parts (by simp), Expr.uses_iff_parts (by simp)]
      simp [Expr.parts, or_assoc]
    · rw [Expr.uses_iff_parts (by simp)]
      simp [Expr.parts]

/-- A call or subscript uses the names of what is called and of the arguments. -/
theorem Expr.uses_apply {name : String} {callee : Expr} {args : List Expr} :
    (callee.apply args).Uses name ↔ callee.Uses name ∨ ∃ arg ∈ args, arg.Uses name := by
  unfold Expr.apply
  split
  · rw [Expr.uses_iff_parts (by simp)]
    simp [Expr.parts]
  · rw [Expr.uses_iff_parts (by simp)]
    simp [Expr.parts]

/-- What is known of the enclosing function changes only by a use of `nargin`, which is noted
exactly when there is one. -/
inductive Scope.Notes (used : Prop) : Option Scope → Option Scope → Prop where
  | outside : Scope.Notes used none none
  | inside {outputs : List Ident} {before after : Bool} :
    (after = true ↔ before = true ∨ used) →
      Scope.Notes used (some ⟨outputs, before⟩) (some ⟨outputs, after⟩)

/-- What is noted between two states. -/
def State.Notes (s : State) (used : Prop) (final : State) : Prop :=
  Scope.Notes used s.scope final.scope

namespace State

variable {s s₁ s₂ : State} {used more : Prop}

/-- A state with the same function has noted nothing. -/
theorem Notes.of_scope_eq (same : s₁.scope = s.scope) (unused : ¬used) : s.Notes used s₁ := by
  unfold Notes
  rw [same]
  cases s.scope with
  | none => exact .outside
  | some scope => exact .inside (by simp [unused])

/-- What is noted in two parts. -/
theorem Notes.trans (head : s.Notes used s₁) (tail : s₁.Notes more s₂) :
    s.Notes (used ∨ more) s₂ := by
  unfold Notes at *
  generalize s.scope = first at *
  generalize s₁.scope = second at *
  generalize s₂.scope = third at *
  cases head with
  | outside =>
    cases tail
    exact .outside
  | inside left =>
    cases tail with
    | inside right => exact .inside (by rw [right, left, or_assoc])

/-- The same is noted for another reason. -/
theorem Notes.congr (notes : s.Notes used s₁) (same : more ↔ used) : s.Notes more s₁ := by
  rwa [propext same]

/-- A name that is noted. -/
theorem Notes.note (s : State) (name : String) : s.Notes (name = "nargin") (s.note name) := by
  unfold State.note
  split
  · next same =>
    change Scope.Notes _ s.scope (s.scope.map _)
    cases s.scope with
    | none => exact .outside
    | some scope => exact .inside (by simp [same])
  · next other => exact .of_scope_eq rfl other

/-- What is noted in front of tokens that note nothing. -/
theorem Notes.before (notes : s.Notes used s₁) (same : s₂.scope = s₁.scope) : s.Notes used s₂ := by
  unfold Notes at *
  rwa [same]

/-- What is noted behind tokens that note nothing. -/
theorem Notes.behind (notes : s₁.Notes used s₂) (same : s₁.scope = s.scope) : s.Notes used s₂ := by
  unfold Notes at *
  rwa [← same]

end State

namespace Grammar

/-- What a phrase notes while it is read. -/
def Phrase.Noted (s final : State) : Phrase → Prop
  | .expression _ _ whole | .operand _ whole | .handle _ _ whole =>
    s.Notes (whole.Uses "nargin") final
  | .operators _ _ left whole | .suffix left _ whole =>
    ∃ added, s.Notes added final ∧ (whole.Uses "nargin" ↔ left.Uses "nargin" ∨ added)
  | .elements _ _ row rows => s.Notes (∃ element ∈ row ++ rows.flatten, element.Uses "nargin") final
  | .arguments _ args | .argumentsFrom _ args => s.Notes (∃ arg ∈ args, arg.Uses "nargin") final
  | .parameters _ | .parametersFrom _ => final.scope = s.scope

/-- A tree without parts that is no name notes nothing. -/
theorem noted_atom {s : State} {whole : Expr} (composed : ∀ ident, whole ≠ .ident ident)
    (parts : whole.parts = []) : s.Notes (whole.Uses "nargin") s.next := by
  refine .of_scope_eq rfl ?_
  rw [Expr.uses_iff_parts composed, parts]
  simp

/-- A phrase notes the uses of `nargin` in its tree. -/
theorem Reads.noted {phrase : Phrase} {s final : State} (reads : Reads phrase s final) :
    phrase.Noted s final := by
  induction reads with
  | expression _ _ head tail =>
    obtain ⟨added, later, uses⟩ := tail
    exact (State.Notes.trans head later).congr uses
  | stop => exact ⟨False, .of_scope_eq rfl id, by simp⟩
  | postfixed _ _ _ _ _ _ head tail =>
    obtain ⟨first, before, middle⟩ := head
    obtain ⟨second, behind, whole⟩ := tail
    exact ⟨first ∨ second, before.trans behind, by rw [whole, middle, or_assoc]⟩
  | infixed _ _ _ _ _ _ head tail =>
    obtain ⟨added, behind, whole⟩ := tail
    refine ⟨_, (State.Notes.behind head rfl).trans behind, ?_⟩
    rw [whole, Expr.uses_infixNode, or_assoc]
  | @ident nesting token s _ _ =>
    exact ((State.Notes.note s.next token.text).behind rfl).congr Expr.uses_ident
  | number | string | lastIndex | colon => exact noted_atom (by simp) rfl
  | ignored => exact .of_scope_eq rfl (by simp [Expr.uses_ident])
  | unary _ _ _ _ head =>
    refine (State.Notes.behind head rfl).congr ?_
    rw [Expr.uses_iff_parts (by simp)]
    simp [Expr.parts]
  | atSign _ _ _ head => exact State.Notes.behind head rfl
  | parens _ _ _ _ head =>
    refine ((State.Notes.behind head rfl).before rfl).congr ?_
    rw [Expr.uses_iff_parts (by simp)]
    simp [Expr.parts]
  | matrix _ _ _ head | cell _ _ _ head =>
    refine (State.Notes.behind head rfl).congr ?_
    rw [Expr.uses_iff_parts (by simp), Expr.parts, flatten_rowsOf]
  | lambda _ _ _ head tail =>
    refine (State.Notes.behind tail head).congr ?_
    rw [Expr.uses_iff_parts (by simp)]
    simp [Expr.parts]
  | named => exact noted_atom (by simp) rfl
  | close => exact .of_scope_eq rfl (by simp)
  | rowEnd _ _ _ _ head =>
    refine (State.Notes.behind head rfl).congr ?_
    rw [List.nil_append, flatten_rowsOf]
  | comma _ _ _ head => exact State.Notes.behind head rfl
  | element _ _ _ _ _ head tail =>
    refine (State.Notes.trans head tail).congr ?_
    simp
  | call _ _ _ head => exact ⟨_, State.Notes.behind head rfl, Expr.uses_apply⟩
  | cellIndex _ _ _ head =>
    refine ⟨_, State.Notes.behind head rfl, ?_⟩
    rw [Expr.uses_iff_parts (by simp)]
    simp [Expr.parts]
  | member =>
    refine ⟨False, .of_scope_eq rfl id, ?_⟩
    rw [Expr.uses_iff_parts (by simp)]
    simp [Expr.parts, Field.parts]
  | dynamic _ _ _ _ _ head =>
    refine ⟨_, (State.Notes.behind head rfl).before rfl, ?_⟩
    rw [Expr.uses_iff_parts (by simp)]
    simp [Expr.parts, Field.parts]
  | transpose =>
    refine ⟨False, .of_scope_eq rfl id, ?_⟩
    rw [Expr.uses_iff_parts (by simp)]
    simp [Expr.parts]
  | noArguments => exact .of_scope_eq rfl (by simp)
  | arguments _ _ head => exact head
  | argument _ _ _ head tail =>
    refine (State.Notes.trans head (State.Notes.behind tail rfl)).congr ?_
    simp
  | lastArgument _ _ _ head =>
    refine (State.Notes.before head rfl).congr ?_
    simp
  | noParameters => rfl
  | parameters _ _ _ head => exact head
  | parameter _ _ _ head => exact head
  | lastParameter => rfl

end Grammar

end MatlabFront
