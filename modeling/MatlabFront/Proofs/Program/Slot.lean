import MatlabFront.Proofs.Expression.Context
import MatlabFront.Proofs.Expression.Sound
import MatlabFront.Proofs.Program.Layout

/-!
# Expressions and separators of programs that are laid out

The tokens of a slot were read as its expression in front of a separator at the start of a program.
They are read in the same way where they stand, because no operator stands behind them there either.
-/

namespace MatlabFront.Surface

variable {s : State} {run gap rest tokens : List Token}

/-- Tokens without an error among them. -/
def Clean (tokens : List Token) : Prop := ∀ token ∈ tokens, token.kind ≠ .error

/-- No tokens hold no error. -/
@[simp] theorem clean_nil : Clean [] := by simp [Clean]

/-- Tokens hold no error when the first one is none and the others hold none. -/
@[simp] theorem clean_cons {token : Token} :
    Clean (token :: tokens) ↔ token.kind ≠ .error ∧ Clean tokens := List.forall_mem_cons

/-- Two runs of tokens hold no error when neither does. -/
@[simp] theorem clean_append : Clean (run ++ tokens) ↔ Clean run ∧ Clean tokens :=
  List.forall_mem_append

/-- A kind with which an expression or statement begins: no separator and no keyword of a block. -/
structure Begins (kind : Kind) : Prop where
  noSeparator : kind.isSeparator = false
  noKeyword : kind.isBlockKeyword = false

/-- An expression begins with no keyword and no separator. -/
theorem begins_of_expression {power : Nat} {whole : Expr}
    (reads : Grammar.Reads (.expression .outside power whole) s final) :
    ∃ token, s.peek = some token ∧ Begins token.kind ∧ startsPlain (some token.kind) = true := by
  cases reads with
  | expression operand _ =>
    cases operand with
    | ident known kind | number known kind | string known kind | atSign known kind
    | parens known kind | matrix known kind | cell known kind =>
      refine ⟨_, known, ⟨?_, ?_⟩, ?_⟩ <;> rw [kind] <;> rfl
    | lastIndex _ _ _ inside => exact absurd rfl inside
    | colon _ _ alone => cases alone
    | ignored _ _ alone => cases alone
    | @unary _ operator _ token _ _ known sign =>
      refine ⟨token, known, ⟨?_, ?_⟩, ?_⟩ <;> cases kind : token.kind <;>
        first | rfl | (rw [kind] at sign; cases sign)

/-- A separator is no operator. -/
theorem leftPower?_of_isSeparator {kind : Kind} (separates : kind.isSeparator = true) :
    kind.leftPower? = none := by
  cases kind <;> first | rfl | cases separates

/-- No operator stands behind what a gap follows. -/
theorem Gap.operatorless (filled : Gap gap) : Operatorless (gap ++ rest) := by
  obtain ⟨first, more, rfl⟩ := List.exists_cons_of_ne_nil filled.nonempty
  exact operatorless_cons (leftPower?_of_isSeparator (filled.separators first List.mem_cons_self))

/-- In front of a gap a separator comes next. -/
theorem Gap.atSeparator (filled : Gap gap) (known : s.rest = gap ++ rest) :
    s.atSeparator = true := by
  obtain ⟨first, more, rfl⟩ := List.exists_cons_of_ne_nil filled.nonempty
  obtain ⟨here, -⟩ := State.peek_of_rest known
  rw [State.atSeparator, State.peekKind_of_peek here]
  exact filled.separators first List.mem_cons_self

/-- The tokens of a slot hold no error, and are read as its expression wherever no operator follows.
-/
theorem Slot.portable {expr : Expr} (slot : Slot run expr) :
    Clean run ∧ ∀ (s : State) (rest : List Token), s.rest = run ++ rest → Operatorless rest →
      ∃ final, Grammar.Reads (.expression .outside 0 expr) s final ∧ final.rest = rest := by
  obtain ⟨steps, separator, later, first, separates, accepted, left⟩ := slot
  have reads : Grammar.Reads (.expression .outside 0 expr) (.start (run ++ separator :: later))
      first := Grammar.soundAt steps (.expression .outside 0 expr) _ _ accepted
  obtain ⟨taken, advances, clean, moves⟩ := reads.portable trivial
  have same : taken = run := by
    have whole : run ++ separator :: later = taken ++ first.rest := advances.rest
    rw [left] at whole
    exact (List.append_cancel_right whole).symm
  subst same
  refine ⟨clean, fun s rest known operatorless => ?_⟩
  have follows : Nesting.outside.Follows first.rest rest := by
    refine .inr ⟨?_, operatorless⟩
    rw [left]
    exact operatorless_cons (leftPower?_of_isSeparator separates)
  obtain ⟨final, moved, advanced⟩ := moves s rest known (fun inside => by cases inside) follows
  exact ⟨final, moved, advanced.rest_eq known⟩

/-- A slot begins as expressions do. -/
theorem Slot.begins {expr : Expr} (slot : Slot run expr) :
    ∃ first later, run = first :: later ∧ Begins first.kind ∧
      startsPlain (some first.kind) = true := by
  obtain ⟨final, reads, left⟩ := slot.portable.2 (.start run) []
    (List.append_nil run).symm (by rintro _ ⟨⟩)
  obtain ⟨token, known, begins, plain⟩ := begins_of_expression reads
  obtain ⟨later, rfl⟩ := List.head?_eq_some_iff.mp known
  exact ⟨token, later, rfl, begins, plain⟩

/-- Separators hold no error. -/
theorem Separators.clean (separators : Separators gap) : Clean gap := by
  intro token inside error
  have separates := separators token inside
  rw [error] at separates
  cases separates

/-- A keyword of a block is no separator. -/
theorem noSeparator_of_isBlockKeyword {kind : Kind} (keyword : kind.isBlockKeyword = true) :
    kind.isSeparator = false := by
  cases kind <;> first | rfl | cases keyword

/-- Separators are skipped up to something else. -/
theorem Separators.skip (separators : Separators gap) (known : s.rest = gap ++ rest)
    (stops : ∀ token ∈ rest.head?, token.kind.isSeparator = false) :
    s.skipSeparators.rest = rest :=
  (State.skip_of_rest known separators stops).2

/-- A statement can end in front of a gap. -/
theorem Gap.atTerminator (filled : Gap gap) (known : s.rest = gap ++ rest) :
    s.atTerminator = true := by
  obtain ⟨first, more, rfl⟩ := List.exists_cons_of_ne_nil filled.nonempty
  obtain ⟨here, -⟩ := State.peek_of_rest known
  rw [State.atTerminator, State.peekKind_of_peek here]
  simp [filled.separators first List.mem_cons_self]

/-- In front of a gap there is no equals sign. -/
theorem Gap.no_assign (filled : Gap gap) (known : s.rest = gap ++ rest) :
    s.peekKind ≠ some .assign := by
  intro sign
  have separates := filled.atSeparator known
  rw [State.atSeparator, sign] at separates
  cases separates

/-- A condition is read in front of a gap. -/
theorem Slot.condition {condition : Expr} (slot : Slot run condition) (filled : Gap gap)
    (known : s.rest = run ++ (gap ++ rest)) :
    ∃ final, Grammar.Reads (.expression .outside 0 condition) s final ∧
      final.rest = gap ++ rest ∧ final.atSeparator = true := by
  obtain ⟨final, reads, left⟩ := slot.portable.2 s _ known filled.operatorless
  exact ⟨final, reads, left, filled.atSeparator left⟩

end MatlabFront.Surface
