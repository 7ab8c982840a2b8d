import MatlabFront.Proofs.Expression.Nested

/-!
# Expressions keep the brackets in balance

Behind an expression the same brackets are open as in front of it. What is left of a literal or of a
list in brackets closes the innermost one, behind whose opening one it is read.
-/

namespace MatlabFront

/-- The brackets that are open behind the tokens that are read, innermost first. -/
def State.brackets (state : State) : List Kind := bracketsBehind [] state.consumed.reverse

namespace State

variable {s s₁ : State} {token : Token}

/-- Behind the next token those brackets are open that the lexer takes to be open behind it. -/
theorem brackets_next (known : s.peek = some token) :
    s.next.brackets = Context.bracketsAfter s.brackets token.kind := by
  rw [brackets, consumed_next known, List.reverse_cons, bracketsBehind_append]
  rfl

/-- The same of a next token of which only the kind is known. -/
theorem brackets_next_of_peekKind {kind : Kind} (known : s.peekKind = some kind) :
    s.next.brackets = Context.bracketsAfter s.brackets kind := by
  obtain ⟨token, here, rfl⟩ := peek_of_peekKind known
  exact brackets_next here

/-- An opening bracket is open behind it. -/
theorem brackets_opened {kind : Kind} (known : s.peekKind = some kind)
    (opens : kind.opensBracket = true) : s.next.brackets = kind :: s.brackets := by
  rw [brackets_next_of_peekKind known, Context.bracketsAfter, if_pos opens]

/-- A closing bracket closes the innermost one. -/
theorem brackets_closed {kind : Kind} (known : s.peekKind = some kind)
    (closes : kind.closesBracket = true) : s.next.brackets = s.brackets.tail := by
  rw [brackets_next_of_peekKind known, Context.bracketsAfter, if_pos closes]
  cases kind <;> first | rfl | cases closes

/-- What is no bracket leaves the brackets as they are. -/
theorem brackets_plain {kind : Kind} (known : s.peekKind = some kind)
    (plain : kind.Plain) : s.next.brackets = s.brackets := by
  rw [brackets_next_of_peekKind known, plain.bracketsAfter]

/-- Balanced tokens leave the brackets as they are. -/
theorem Nests.brackets (nests : s.Nests s₁) : s₁.brackets = s.brackets := by
  obtain ⟨run, advances, balanced⟩ := nests
  rw [State.brackets, advances.consumed, List.reverse_append, List.reverse_reverse,
    bracketsBehind_append, balanced.bracketsBehind, State.brackets]

/-- Balanced tokens and a closing bracket close the innermost one. -/
theorem Encloses.brackets {close : Kind} (encloses : s.Encloses close s₁)
    (closes : close.closesBracket = true) : s₁.brackets = s.brackets.tail := by
  obtain ⟨last, nests, known, rfl⟩ := encloses
  rw [brackets_closed known closes, nests.brackets]

end State

namespace Grammar

/-- The brackets that are open behind a phrase when some are open in front of it. -/
def Phrase.leaves (brackets : List Kind) : Phrase → List Kind
  | .elements .. | .arguments .. | .argumentsFrom .. | .parametersFrom _ => brackets.tail
  | _ => brackets

/-- A phrase leaves open what was open in front of it, but for the bracket that it closes. -/
theorem Reads.balanced {phrase : Phrase} {s final : State} (reads : Reads phrase s final)
    (proper : phrase.Proper) : final.brackets = phrase.leaves s.brackets := by
  have nests := reads.nests
  cases phrase with
  | elements | arguments | argumentsFrom => exact State.Encloses.brackets nests proper
  | parametersFrom => exact State.Encloses.brackets nests rfl
  | expression | operators | operand | handle | suffix | parameters =>
    exact State.Nests.brackets nests

end Grammar

end MatlabFront
