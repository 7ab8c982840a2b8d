import MatlabFront.Proofs.Parser.Outcome

/-!
# Runs of tokens between two states

A parser goes on in its input: between two states of a run lie the tokens that it has read. A state
advances to another over a run of tokens when exactly these move from the tokens left to the
tokens behind.
-/

namespace MatlabFront

namespace State

/-- Exactly the tokens of a run are read between two states. -/
structure Advances (s : State) (run : List Token) (final : State) : Prop where
  rest : s.rest = run ++ final.rest
  consumed : final.consumed = run.reverse ++ s.consumed

variable {s s₁ s₂ : State} {run more : List Token} {token : Token}

/-- The first of the tokens left is the next one. -/
theorem peek_of_rest {later : List Token} (rest : s.rest = token :: later) :
    s.peek = some token ∧ s.next.rest = later := by
  simp [peek, next, rest]

/-- Nothing is read from a state to itself. -/
theorem Advances.refl (s : State) : s.Advances [] s := ⟨rfl, rfl⟩

/-- What is read in two parts is read as a whole. -/
theorem Advances.trans (head : s.Advances run s₁) (tail : s₁.Advances more s₂) :
    s.Advances (run ++ more) s₂ where
  rest := by rw [head.rest, tail.rest, List.append_assoc]
  consumed := by rw [tail.consumed, head.consumed, List.reverse_append, List.append_assoc]

/-- A known next token is read alone. -/
theorem Advances.next (known : s.peek = some token) : s.Advances [token] s.next where
  rest := rest_of_peek known
  consumed := consumed_next known

/-- A known next token is read in front of a run. -/
theorem Advances.cons (known : s.peek = some token) (tail : s.next.Advances run s₁) :
    s.Advances (token :: run) s₁ := (Advances.next known).trans tail

/-- A token behind a run is read with it. -/
theorem Advances.concat (head : s.Advances run s₁) (known : s₁.peek = some token) :
    s.Advances (run ++ [token]) s₁.next := head.trans (Advances.next known)

/-- Noting a name reads nothing. -/
theorem Advances.note (head : s.Advances run s₁) (name : String) :
    s.Advances run (s₁.note name) where
  rest := by rw [note_rest, head.rest]
  consumed := by rw [note_consumed, head.consumed]

/-- The tokens of the kinds that a test accepts are read as far as they go. -/
theorem Advances.skip (s : State) (test : Kind → Bool) :
    s.Advances (s.rest.takeWhile (test ·.kind)) (s.skip test) where
  rest := (List.takeWhile_append_dropWhile).symm
  consumed := rfl

/-- Exactly a run of tokens is skipped when its kinds are accepted and that behind it is not. -/
theorem skip_of_rest {test : Kind → Bool} {rest : List Token} (known : s.rest = run ++ rest)
    (accepted : ∀ token ∈ run, test token.kind = true)
    (ends : ∀ token ∈ rest.head?, test token.kind = false) :
    s.rest.takeWhile (test ·.kind) = run ∧ (s.skip test).rest = rest := by
  have stops : rest.takeWhile (test ·.kind) = [] ∧ rest.dropWhile (test ·.kind) = rest := by
    cases rest with
    | nil => exact ⟨rfl, rfl⟩
    | cons token rest =>
      have stop : test token.kind = false := ends token rfl
      simp [stop]
  constructor
  · rw [known, List.takeWhile_append_of_pos accepted, stops.1, List.append_nil]
  · change s.rest.dropWhile (test ·.kind) = rest
    rw [known, List.dropWhile_append_of_pos accepted, stops.2]

/-- The tokens between two states are determined by them. -/
theorem Advances.unique (one : s.Advances run s₁) (other : s.Advances more s₁) : run = more :=
  List.append_cancel_right (one.rest.symm.trans other.rest)

/-- The tokens behind the run that is read are left. -/
theorem Advances.rest_eq {rest : List Token} (advances : s.Advances run s₁)
    (known : s.rest = run ++ rest) : s₁.rest = rest :=
  List.append_cancel_left (advances.rest.symm.trans known)

/-- Reading a run leaves fewer tokens by its length. -/
theorem Advances.length (advances : s.Advances run s₁) :
    s.rest.length = run.length + s₁.rest.length := by
  rw [advances.rest, List.length_append]

/-- Where no token is left, none is read. -/
theorem next_of_end {s : State} (ended : s.peek = none) : s.next = s := by
  have left : s.rest = [] := List.head?_eq_none_iff.mp ended
  obtain ⟨consumed, rest, scope, events⟩ := s
  cases left
  rfl

/-- One state lies behind another, with some tokens between them. -/
def Reaches (s final : State) : Prop := ∃ run, s.Advances run final

/-- A state reaches itself. -/
theorem Reaches.refl (s : State) : s.Reaches s := ⟨[], .refl s⟩

/-- What is reached from a reached state is reached. -/
theorem Reaches.trans (head : s.Reaches s₁) (tail : s₁.Reaches s₂) : s.Reaches s₂ := by
  obtain ⟨front, first⟩ := head
  obtain ⟨back, second⟩ := tail
  exact ⟨front ++ back, first.trans second⟩

/-- A state with the same tokens in front of it and behind it lies as far. -/
theorem Reaches.congr (head : s.Reaches s₁) (rest : s₂.rest = s₁.rest)
    (consumed : s₂.consumed = s₁.consumed) : s.Reaches s₂ := by
  obtain ⟨run, advances⟩ := head
  exact ⟨run, by rw [rest, advances.rest], by rw [consumed, advances.consumed]⟩

/-- Going over one more token reaches a later state. -/
theorem Reaches.next (head : s.Reaches s₁) : s.Reaches s₁.next := by
  refine head.trans ?_
  cases known : s₁.peek with
  | none =>
    rw [next_of_end known]
    exact .refl s₁
  | some token => exact ⟨_, .next known⟩

/-- Going over all tokens of some kinds reaches a later state. -/
theorem Reaches.skip (head : s.Reaches s₁) (test : Kind → Bool) : s.Reaches (s₁.skip test) :=
  head.trans ⟨_, .skip s₁ test⟩

/-- A noted name moves no token. -/
theorem Reaches.note (head : s.Reaches s₁) (name : String) : s.Reaches (s₁.note name) :=
  head.congr (note_rest s₁ name) (note_consumed s₁ name)

/-- The tokens left behind are the last of those left in front. -/
theorem Reaches.suffix (reaches : s.Reaches s₁) : s₁.rest <:+ s.rest := by
  obtain ⟨run, advances⟩ := reaches
  exact ⟨run, advances.rest.symm⟩

end State

end MatlabFront
