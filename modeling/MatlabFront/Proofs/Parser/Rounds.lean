import MatlabFront.Proofs.Parser.Moves

/-!
# The rounds of a loop

A function of the parser that goes on with itself is a loop. A round of it is what it does before it
goes on: it leaves the loop with a result or takes at least one token. Since a round says nothing of
how the loop goes on, the loop is determined by its rounds.
-/

namespace MatlabFront

/-- At least one token is read between two states. -/
def State.Passes (s final : State) : Prop := ∃ run, run ≠ [] ∧ s.Advances run final

namespace State.Passes

variable {s s₁ s₂ : State}

/-- A later state with fewer tokens left has been passed to. -/
theorem of_reaches (reaches : s.Reaches s₁) (shorter : s₁.rest.length < s.rest.length) :
    s.Passes s₁ := by
  obtain ⟨run, advances⟩ := reaches
  exact ⟨run, advances.ne_nil shorter, advances⟩

/-- Going over a token that is there passes on. -/
theorem next {token : Token} (known : s.peek = some token) : s.Passes s.next :=
  ⟨[token], List.cons_ne_nil _ _, .next known⟩

/-- Going over a token of a known kind passes on. -/
theorem next_of_peekKind {kind : Kind} (known : s.peekKind = some kind) : s.Passes s.next := by
  obtain ⟨token, here, -⟩ := peek_of_peekKind known
  exact .next here

/-- A token that is read later is read. -/
theorem after (head : s.Reaches s₁) (tail : s₁.Passes s₂) : s.Passes s₂ := by
  obtain ⟨front, first⟩ := head
  obtain ⟨back, some, second⟩ := tail
  exact ⟨front ++ back, List.append_ne_nil_of_right_ne_nil front some, first.trans second⟩

/-- A token that has been read stays read. -/
theorem before (head : s.Passes s₁) (tail : s₁.Reaches s₂) : s.Passes s₂ := by
  obtain ⟨front, some, first⟩ := head
  obtain ⟨back, second⟩ := tail
  exact ⟨front ++ back, List.append_ne_nil_of_left_ne_nil some back, first.trans second⟩

/-- What is passed to is reached. -/
theorem reaches (passes : s.Passes s₁) : s.Reaches s₁ := by
  obtain ⟨run, -, advances⟩ := passes
  exact ⟨run, advances⟩

end State.Passes

/-- Nothing is done behind a parse that only returns its value. -/
theorem Outcome.bind_pure {α : Type} (outcome : Outcome α) :
    (outcome.bind fun value => (pure value : Parser α)) = outcome := by
  cases outcome <;> rfl

/-- A parse that is done meets a condition. -/
def Outcome.Ensures {α : Type} (outcome : Outcome α) (post : α → State → Prop) : Prop :=
  ∀ value final, outcome = .done value final → post value final

namespace Outcome.Ensures

variable {α β : Type} {middle : α → State → Prop} {post : β → State → Prop}

/-- A result ensures what holds of it. -/
theorem done {value : β} {final : State} (holds : post value final) :
    (Outcome.done value final).Ensures post := by
  rintro _ _ ⟨⟩
  exact holds

/-- A failure ensures anything that is asked of results. -/
theorem failed {failure : Failure} {met : State} :
    (Outcome.failed failure met : Outcome β).Ensures post := nofun

/-- What the second parser ensures from every result of the first is ensured by both. -/
theorem bind {outcome : Outcome α} {next : α → Parser β} (head : outcome.Ensures middle)
    (tail : ∀ value s, middle value s → (next value s).Ensures post) :
    (outcome.bind next).Ensures post := by
  intro value final run
  obtain ⟨first, s, done, later⟩ := Outcome.bind_eq_done.mp run
  exact tail first s (head first s done) value final later

/-- The same of two parsers one behind the other, in the state they start in. -/
theorem andThen {s : State} {parser : Parser α} {next : α → Parser β}
    (head : (parser s).Ensures middle)
    (tail : ∀ value s, middle value s → (next value s).Ensures post) :
    ((parser >>= next) s).Ensures post := head.bind tail

end Outcome.Ensures

namespace Parser

/-- What a round of a loop comes to. The loop is left with a result, or it goes on from somewhere
and completes what it comes to then. -/
inductive Turn (ι α : Type) where
  | leave (result : α)
  | again (start : ι) (complete : α → α)

namespace Turn

variable {ι α : Type}

/-- What follows a round of a loop. -/
def follow (loop : ι → Parser α) : Turn ι α → Parser α
  | .leave result => pure result
  | .again start complete => do return complete (← loop start)

/-- A round that does not leave the loop has taken a token. -/
def Takes (s : State) : Turn ι α → State → Prop
  | .leave _, _ => True
  | .again _ _, final => s.Passes final

/-- A loop that goes on without completing anything is followed alone. -/
theorem follow_again_id (loop : ι → Parser α) (start : ι) :
    follow loop (.again start id) = loop start :=
  funext fun s => Outcome.bind_pure (loop start s)

end Turn

/-- What leaves the loop need not take a token. -/
theorem Turn.leaves_takes {ι α γ : Type} {s : State} {outcome : Outcome γ} {result : γ → α} :
    (outcome.bind fun value => (pure (.leave (result value)) : Parser (Turn ι α))).Ensures
      (Turn.Takes s) := by
  intro turn final run
  obtain ⟨value, s₁, -, left⟩ := Outcome.bind_eq_done.mp run
  obtain ⟨rfl, -⟩ := Outcome.done.inj left
  trivial

/-- A loop does rounds. Each of them leaves the loop or takes a token. -/
structure Loops {ι α : Type} (loop : Nat → ι → Parser α) (round : Nat → ι → Parser (Turn ι α)) :
    Prop where
  unfolds (steps : Nat) (start : ι) (s : State) :
    loop (steps + 1) start s = (round steps start s).bind (Turn.follow (loop steps))
  takes (steps : Nat) (start : ι) (s : State) : (round steps start s).Ensures (Turn.Takes s)

/-- A token that is skipped. -/
def skipRound (test : Kind → Bool) (_ : Nat) (_ : Unit) : Parser (Turn Unit Unit) := do
  if (← peekKind).any test then
    advance
    return .again () id
  else return .leave ()

/-- Skipping is a loop of which each round goes over one token that passes the test. -/
theorem skipWhile_loops (test : Kind → Bool) :
    Loops (fun _ _ => skipWhile test) (skipRound test) where
  unfolds _ _ s := by
    simp only [skipRound, bind_apply, peekKind_apply, Outcome.bind_done, skipWhile_apply]
    obtain ⟨consumed, _ | ⟨token, rest⟩, scope, events⟩ := s
    · rfl
    by_cases accepted : test token.kind = true
    · simp [State.peekKind, State.skip, State.next, accepted, Turn.follow_again_id]
    · simp [State.peekKind, State.skip, accepted, Turn.follow]
  takes _ _ s := by
    simp only [skipRound, bind_apply, peekKind_apply, Outcome.bind_done]
    split
    · next accepted =>
      obtain ⟨kind, known, -⟩ := (Option.any_eq_true test s.peekKind).mp accepted
      simp only [bind_apply, advance_apply, Outcome.bind_done]
      exact .done (.next_of_peekKind known)
    · exact .done trivial

end Parser

end MatlabFront
