import MatlabFront.Parser.Expression

/-!
# Outcomes of the basic parsers

What each basic parser comes to, as an equation. A parser in sequence with another is opened by
`Outcome.bind`, so that a run that is done splits into the runs of its parts.
-/

namespace MatlabFront

namespace State

/-- The next token. -/
def peek (state : State) : Option Token := state.rest.head?

/-- The kind of the next token. -/
def peekKind (state : State) : Option Kind := state.rest.head?.map (·.kind)

/-- The kind of the token after the next one. -/
def secondKind (state : State) : Option Kind := state.rest.tail.head?.map (·.kind)

/-- The kind of the third token from here. -/
def thirdKind (state : State) : Option Kind := state.rest.tail.tail.head?.map (·.kind)

/-- The state behind the next token. -/
def next (state : State) : State :=
  { state with consumed := state.rest.head?.toList ++ state.consumed, rest := state.rest.tail }

/-- The state behind the tokens whose kinds satisfy a test. -/
def skip (state : State) (test : Kind → Bool) : State :=
  { state with
    consumed := (state.rest.takeWhile (test ·.kind)).reverse ++ state.consumed
    rest := state.rest.dropWhile (test ·.kind) }

/-- The state after the enclosing function has noted the use of a name. -/
def note (state : State) (name : String) : State :=
  if name = "nargin" then
    { state with scope := state.scope.map ({ · with usesNargin := true }) }
  else state

/-- The next token begins a new element of the literal around it. -/
def atGap (state : State) (nesting : Nesting) : Bool :=
  nesting == .elements && Parser.gapBeginsElement state.consumed state.rest

/-- The next token is known from its kind. -/
theorem peek_of_peekKind {state : State} {kind : Kind} (known : state.peekKind = some kind) :
    ∃ token, state.peek = some token ∧ token.kind = kind := by
  simpa [peekKind, peek] using known

/-- A known next token has a known kind. -/
theorem peekKind_of_peek {state : State} {token : Token} (known : state.peek = some token) :
    state.peekKind = some token.kind := by
  have head : state.rest.head? = some token := known
  simp [peekKind, head]

/-- A known next token is the first of those left. -/
theorem rest_of_peek {state : State} {token : Token} (known : state.peek = some token) :
    state.rest = token :: state.next.rest := by
  obtain ⟨consumed, rest, scope, events⟩ := state
  cases rest with
  | nil => simp [peek] at known
  | cons first rest =>
    obtain rfl : first = token := by simpa [peek] using known
    rfl

/-- A known next token is read into the tokens behind. -/
theorem consumed_next {state : State} {token : Token} (known : state.peek = some token) :
    state.next.consumed = token :: state.consumed := by
  have head : state.rest.head? = some token := known
  simp [next, head]

/-- Going over a token stays in the same function. -/
@[simp] theorem next_scope (state : State) : state.next.scope = state.scope := rfl

/-- Going over a token reports nothing. -/
@[simp] theorem next_events (state : State) : state.next.events = state.events := rfl

/-- Noting a name takes no token. -/
@[simp] theorem note_consumed (state : State) (name : String) :
    (state.note name).consumed = state.consumed := by
  unfold note
  split <;> rfl

/-- Noting a name leaves all tokens where they are. -/
@[simp] theorem note_rest (state : State) (name : String) :
    (state.note name).rest = state.rest := by
  unfold note
  split <;> rfl

/-- Noting a name reports nothing. -/
@[simp] theorem note_events (state : State) (name : String) :
    (state.note name).events = state.events := by
  unfold note
  split <;> rfl

end State

/-- What a parser comes to after one that came to an outcome. -/
def Outcome.bind {α β : Type} (outcome : Outcome α) (next : α → Parser β) : Outcome β :=
  match outcome with
  | .done value state => next value state
  | .failed failure state => .failed failure state
  | .exhausted => .exhausted

namespace Outcome

variable {α β : Type}

/-- A parser behind a result goes on from it. -/
@[simp] theorem bind_done (value : α) (state : State) (next : α → Parser β) :
    (Outcome.done value state).bind next = next value state := rfl

/-- A failure is final: no parser behind it is run. -/
@[simp] theorem bind_failed (failure : Failure) (state : State) (next : α → Parser β) :
    (Outcome.failed failure state).bind next = .failed failure state := rfl

/-- Running out of steps is final too. -/
@[simp] theorem bind_exhausted (next : α → Parser β) :
    (Outcome.exhausted : Outcome α).bind next = .exhausted := rfl

/-- A sequence is done exactly when both of its parts are. -/
@[simp] theorem bind_eq_done {outcome : Outcome α} {next : α → Parser β} {value : β}
    {final : State} :
    outcome.bind next = .done value final ↔
      ∃ first middle, outcome = .done first middle ∧ next first middle = .done value final := by
  cases outcome with
  | done first middle =>
    constructor
    · exact fun run => ⟨first, middle, rfl, run⟩
    · rintro ⟨_, _, ⟨⟩, run⟩
      exact run
  | failed failure state => simp
  | exhausted => simp

/-- Sequences of parsers may be grouped from the right. -/
theorem bind_bind {γ : Type} (outcome : Outcome α) (next : α → Parser β) (last : β → Parser γ) :
    (outcome.bind next).bind last =
      outcome.bind fun value state => (next value state).bind last := by
  cases outcome <;> rfl

end Outcome

namespace Parser

variable {α β : Type}

/-- One parser behind another is run on what the first one gives. -/
@[simp] theorem bind_apply (first : Parser α) (next : α → Parser β) (state : State) :
    (first >>= next) state = (first state).bind next := rfl

/-- A value is given without a token being taken. -/
@[simp] theorem pure_apply (value : α) (state : State) :
    (pure value : Parser α) state = .done value state := rfl

/-- Discarding a result keeps the state and the failures. -/
@[simp] theorem discard_apply (parser : Parser α) (state : State) :
    (discard parser : Parser PUnit) state = (parser state).bind fun _ => pure ⟨⟩ := rfl

/-- What follows a parser whose result is dropped does not depend on it. -/
theorem discard_bind (parser : Parser α) (next : Unit → Parser β) (state : State) :
    (discard parser >>= next) state = (parser state).bind fun _ => next () := by
  simp only [bind_apply, discard_apply, Outcome.bind_bind, pure_apply, Outcome.bind_done]

/-- The parser that has no steps left gives nothing in any state. -/
@[simp] theorem exhausted_apply (state : State) :
    (exhausted : Parser α) state = .exhausted := rfl

/-- The next token is looked at and not taken. -/
@[simp] theorem peek_apply (state : State) : peek state = .done state.peek state := rfl

/-- The kind of the next token is looked at and the token not taken. -/
@[simp] theorem peekKind_apply (state : State) :
    peekKind state = .done state.peekKind state := rfl

/-- The second token is looked at and not taken. -/
@[simp] theorem secondKind_apply (state : State) :
    secondKind state = .done state.secondKind state := rfl

/-- The third token is looked at and not taken. -/
@[simp] theorem thirdKind_apply (state : State) :
    thirdKind state = .done state.thirdKind state := rfl

/-- Advancing goes over one token. -/
@[simp] theorem advance_apply (state : State) : advance state = .done () state.next := by
  obtain ⟨consumed, rest, scope, events⟩ := state
  cases rest <;> rfl

/-- A complaint is about the token that comes next, and fails at its position. -/
@[simp] theorem complain_apply (complaint : Complaint) (state : State) :
    (complain complaint : Parser α) state =
      .failed (.syntaxFault complaint state.rest.head? state.pos) state := rfl

/-- A flaw is rejected at the position that is given for it. -/
@[simp] theorem reject_apply (flaw : Flaw) (pos : Position) (state : State) :
    (reject flaw pos : Parser α) state = .failed (.invalidTarget flaw pos) state := rfl

/-- A report is put in front of those that were made before. -/
@[simp] theorem report_apply (event : Event) (state : State) :
    report event state = .done () { state with events := event :: state.events } := rfl

/-- Skipping goes over every token that comes next and passes the test. -/
@[simp] theorem skipWhile_apply (test : Kind → Bool) (state : State) :
    skipWhile test state = .done () (state.skip test) := rfl

/-- A name that is used is noted in the function it is used in. -/
@[simp] theorem used_apply (token : Token) (state : State) :
    used token state = .done (declared token) (state.note token.text) := rfl

/-- Asking whether a new element begins takes no token. -/
@[simp] theorem atNewElement_apply (nesting : Nesting) (state : State) :
    atNewElement nesting state = .done (state.atGap nesting) state := rfl

/-- Reading a token of a kind is done exactly when the next token is of that kind. -/
theorem expectOr_eq_done {complaint : Complaint} {kind : Kind} {state final : State}
    {token : Token} :
    expectOr complaint kind state = .done token final ↔
      state.peek = some token ∧ token.kind = kind ∧ final = state.next := by
  unfold expectOr
  cases known : state.peek with
  | none => simp [known]
  | some found =>
    by_cases same : found.kind = kind
    · simp only [bind_apply, peek_apply, known, Outcome.bind_done, same, ↓reduceIte,
        advance_apply, pure_apply, Outcome.done.injEq, Option.some.injEq]
      constructor
      · rintro ⟨rfl, rfl⟩
        exact ⟨rfl, same, rfl⟩
      · rintro ⟨rfl, -, rfl⟩
        exact ⟨rfl, rfl⟩
    · simp only [bind_apply, peek_apply, known, Outcome.bind_done, same, ↓reduceIte,
        complain_apply, reduceCtorEq, Option.some.injEq, false_iff, not_and]
      rintro rfl kinds
      exact absurd kinds same

/-- A token of a kind is read exactly when it comes next. -/
@[simp] theorem expect_eq_done {kind : Kind} {state final : State} {token : Token} :
    expect kind state = .done token final ↔
      state.peek = some token ∧ token.kind = kind ∧ final = state.next := expectOr_eq_done

/-- A token that has to come next, and does, is consumed. -/
theorem expect_of_peekKind {kind : Kind} {state : State} (here : state.peekKind = some kind) :
    ∃ token, expect kind state = .done token state.next := by
  obtain ⟨token, known, same⟩ := State.peek_of_peekKind here
  exact ⟨token, expect_eq_done.mpr ⟨known, same, rfl⟩⟩

/-- What follows a token that has to come next, and does, starts behind it. -/
theorem discard_expect_bind {kind : Kind} {state : State} {next : Parser α}
    (here : state.peekKind = some kind) :
    (do
      discard (expect kind)
      next : Parser α) state = next state.next := by
  obtain ⟨token, taken⟩ := expect_of_peekKind here
  rw [discard_bind, taken, Outcome.bind_done]

/-- A token of the wrong kind, or none, is complained about. -/
theorem expect_of_ne {kind : Kind} {state : State} (other : state.peekKind ≠ some kind) :
    expect kind state = complain (.missing kind) state := by
  unfold expect expectOr
  cases known : state.peek with
  | none => simp [known]
  | some found =>
    have differs : found.kind ≠ kind := by
      rintro rfl
      exact other (State.peekKind_of_peek known)
    simp [known, differs]

/-- A token of a kind is gone over if it comes next, and nothing is read otherwise. -/
@[simp] theorem consume_apply (kind : Kind) (state : State) :
    consume kind state =
      if state.peekKind = some kind then .done true state.next else .done false state := by
  unfold consume
  by_cases here : state.peekKind = some kind <;> simp [here]

end Parser

end MatlabFront
