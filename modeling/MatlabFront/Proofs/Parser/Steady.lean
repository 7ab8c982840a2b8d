import MatlabFront.Proofs.Parser.Advance

/-!
# Parsers that go on and look ahead two tokens

A parser never goes back: whatever it comes to is met behind the state it was started in, and a
complaint is about the token that is next there. In the strict dialect it moreover sees no more than
two tokens behind the next one, so that what it comes to in front of an index is decided by the
tokens in front of that index. Both are properties of a parser that a sequence has when its parts
have them, and the basic parsers are collected here.
-/

namespace MatlabFront

/-- A complaint is about the next token of a state, or about the end of the input there. -/
def Failure.MetAt (state : State) : Failure → Prop
  | .syntaxFault _ found pos => found = state.peek ∧ pos = state.pos
  | .invalidTarget _ _ => True

namespace State

/-- How many tokens have been read. -/
def cursor (state : State) : Nat := state.consumed.length

/-- Two states stand behind the same tokens, and what is left agrees in front of an index. -/
structure Agrees (index : Nat) (s s' : State) : Prop where
  consumed : s'.consumed = s.consumed
  scope : s'.scope = s.scope
  rest : s'.rest.take (index - s.cursor) = s.rest.take (index - s.cursor)

/-- The cursor is not moved back. -/
theorem Reaches.cursor_le {s final : State} (reaches : s.Reaches final) :
    s.cursor ≤ final.cursor := by
  obtain ⟨run, advances⟩ := reaches
  rw [cursor, cursor, advances.consumed, List.length_append]
  exact Nat.le_add_left _ _

/-- No token is lost between the tokens read and the tokens left. -/
theorem Reaches.whole {s final : State} (reaches : s.Reaches final) :
    final.consumed.reverse ++ final.rest = s.consumed.reverse ++ s.rest := by
  obtain ⟨run, advances⟩ := reaches
  rw [advances.consumed, advances.rest, List.reverse_append, List.reverse_reverse,
    List.append_assoc]

/-- A run that ends in front of an index is the same in tokens that agree up to there. -/
theorem takeWhile_of_take {α : Type} {test : α → Bool} {items others : List α} {count : Nat}
    (same : others.take count = items.take count)
    (inside : (items.takeWhile test).length < count) :
    others.takeWhile test = items.takeWhile test ∧
      (others.dropWhile test).take (count - (items.takeWhile test).length) =
        (items.dropWhile test).take (count - (items.takeWhile test).length) := by
  induction items generalizing others count with
  | nil =>
    obtain ⟨count, rfl⟩ := Nat.exists_eq_succ_of_ne_zero (Nat.ne_zero_of_lt inside)
    obtain rfl : others = [] := by simpa using same
    exact ⟨rfl, rfl⟩
  | cons item items ih =>
    obtain ⟨count, rfl⟩ := Nat.exists_eq_succ_of_ne_zero (Nat.ne_zero_of_lt inside)
    obtain _ | ⟨other, others⟩ := others
    · simp at same
    obtain ⟨rfl, later⟩ : other = item ∧ others.take count = items.take count := by
      simpa using same
    by_cases accepted : test other = true
    · have shorter : (items.takeWhile test).length < count := by
        simpa [List.takeWhile_cons, accepted] using inside
      obtain ⟨taken, left⟩ := ih later shorter
      simpa [List.takeWhile_cons, List.dropWhile_cons, accepted, taken] using left
    · simpa [List.takeWhile_cons, List.dropWhile_cons, accepted] using later

namespace Agrees

variable {index : Nat} {s s' : State}

/-- A state agrees with itself up to any place. -/
theorem refl (index : Nat) (s : State) : s.Agrees index s := ⟨rfl, rfl, rfl⟩

/-- A token in front of the index is the same. -/
theorem getElem? (agrees : s.Agrees index s') (ahead : Nat) (room : s.cursor + ahead < index) :
    s'.rest[ahead]? = s.rest[ahead]? := by
  have inside : ahead < index - s.cursor := by omega
  have same := congrArg (·[ahead]?) agrees.rest
  simpa only [List.getElem?_take_of_lt inside] using same

/-- The next token is the same if it stands in front of the place. -/
theorem peek (agrees : s.Agrees index s') (room : s.cursor < index) : s'.peek = s.peek := by
  have same := agrees.getElem? 0 room
  simpa only [State.peek, List.head?_eq_getElem?] using same

/-- The kind of the next token is the same if it stands in front of the place. -/
theorem peekKind (agrees : s.Agrees index s') (room : s.cursor < index) :
    s'.peekKind = s.peekKind := by
  have same : s'.rest.head? = s.rest.head? := agrees.peek room
  rw [State.peekKind, State.peekKind, same]

/-- The second token is of the same kind if it stands in front of the place. -/
theorem secondKind (agrees : s.Agrees index s') (room : s.cursor + 1 < index) :
    s'.secondKind = s.secondKind := by
  have same := agrees.getElem? 1 room
  simp only [State.secondKind, List.head?_eq_getElem?, List.getElem?_tail, Nat.zero_add, same]

/-- The third token is of the same kind if it stands in front of the place. -/
theorem thirdKind (agrees : s.Agrees index s') (room : s.cursor + 2 < index) :
    s'.thirdKind = s.thirdKind := by
  have same := agrees.getElem? 2 room
  simp only [State.thirdKind, List.head?_eq_getElem?, List.getElem?_tail, Nat.zero_add, same]

/-- Both states stand at the same position in front of the place. -/
theorem pos (agrees : s.Agrees index s') (room : s.cursor < index) : s'.pos = s.pos := by
  have same := agrees.peek room
  unfold State.peek at same
  unfold State.pos
  rw [agrees.consumed]
  cases left : s.rest with
  | nil =>
    have ended : s'.rest = [] := by simpa [left] using same
    rw [ended]
  | cons token rest =>
    obtain ⟨later, known⟩ : ∃ later, s'.rest = token :: later := by
      cases left' : s'.rest <;> simp_all
    rw [known]

/-- Whether a gap begins an element is seen from two tokens. -/
theorem atGap (agrees : s.Agrees index s') (room : s.cursor + 1 < index) (nesting : Nesting) :
    s'.atGap nesting = s.atGap nesting := by
  have seen (consumed rest : List Token) :
      Parser.gapBeginsElement consumed rest = Parser.gapBeginsElement consumed (rest.take 2) := by
    obtain _ | ⟨next, _ | ⟨following, later⟩⟩ := rest <;> cases consumed <;> rfl
  have two : 2 ≤ index - s.cursor := by omega
  have same : s'.rest.take 2 = s.rest.take 2 := by
    have inside := congrArg (List.take 2) agrees.rest
    simpa only [List.take_take, Nat.min_eq_left two] using inside
  rw [State.atGap, seen, agrees.consumed, same, ← seen, State.atGap]

/-- Two states that agree do so behind the next token. -/
theorem next (agrees : s.Agrees index s') (room : s.cursor < index) :
    s.next.Agrees index s'.next := by
  have same := agrees.peek room
  cases known : s.peek with
  | none =>
    have ended : s.next = s := next_of_end known
    have ended' : s'.next = s' := next_of_end (same.trans known)
    rwa [ended, ended']
  | some token =>
    have known' := same.trans known
    have left : index - s.cursor = index - s.next.cursor + 1 := by
      rw [cursor, cursor, consumed_next known, List.length_cons] at *
      omega
    refine ⟨?_, agrees.scope, ?_⟩
    · rw [consumed_next known, consumed_next known', agrees.consumed]
    · have rest := agrees.rest
      rw [rest_of_peek known, rest_of_peek known', left, List.take_succ_cons,
        List.take_succ_cons] at rest
      exact (List.cons.inj rest).2

/-- Two states that agree do so when the same name is noted. -/
theorem note (agrees : s.Agrees index s') (name : String) :
    (s.note name).Agrees index (s'.note name) := by
  refine ⟨?_, ?_, ?_⟩
  · rw [note_consumed, note_consumed, agrees.consumed]
  · unfold State.note
    split
    · exact congrArg (Option.map _) agrees.scope
    · exact agrees.scope
  · rw [note_rest, note_rest, cursor, note_consumed]
    exact agrees.rest

/-- What is skipped in front of the index is the same. -/
theorem skip (agrees : s.Agrees index s') (test : Kind → Bool)
    (room : (s.skip test).cursor < index) :
    s'.rest.takeWhile (test ·.kind) = s.rest.takeWhile (test ·.kind) ∧
      (s.skip test).Agrees index (s'.skip test) := by
  have run := Advances.skip s test
  have length : (s.skip test).cursor = (s.rest.takeWhile (test ·.kind)).length + s.cursor := by
    rw [cursor, run.consumed, List.length_append, List.length_reverse, cursor]
  have inside : (s.rest.takeWhile (test ·.kind)).length < index - s.cursor := by omega
  obtain ⟨taken, left⟩ := takeWhile_of_take agrees.rest inside
  refine ⟨taken, ?_, agrees.scope, ?_⟩
  · rw [(Advances.skip s' test).consumed, run.consumed, taken, agrees.consumed]
  · have behind : index - (s.skip test).cursor =
        index - s.cursor - (s.rest.takeWhile (test ·.kind)).length := by omega
    rw [behind]
    exact left

end Agrees

end State

namespace Outcome

/-- What a parse comes to is met behind the state that it was started in. -/
inductive Onward (s : State) {α : Type} : Outcome α → Prop where
  | done {value : α} {final : State} : s.Reaches final → Onward s (.done value final)
  | failed {failure : Failure} {met : State} : s.Reaches met → failure.MetAt met →
    Onward s (.failed failure met)
  | exhausted : Onward s .exhausted

/-- What a parse comes to at least two tokens in front of an index is what another comes to. -/
def Decided (index : Nat) {α : Type} (outcome other : Outcome α) : Prop :=
  match outcome with
  | .done value final => final.cursor + 3 ≤ index →
    ∃ final', other = .done value final' ∧ final.Agrees index final'
  | .failed failure met => met.cursor + 3 ≤ index →
    ∃ met', other = .failed failure met' ∧ met.Agrees index met'
  | .exhausted => True

variable {α β : Type}

/-- A parse goes on behind what came first. -/
theorem Onward.trans {s s₁ : State} {outcome : Outcome α} (first : s.Reaches s₁)
    (later : outcome.Onward s₁) : outcome.Onward s := by
  cases later with
  | done reaches => exact .done (first.trans reaches)
  | failed reaches here => exact .failed (first.trans reaches) here
  | exhausted => exact .exhausted

/-- A sequence goes on when its parts do. -/
theorem Onward.bind {s : State} {outcome : Outcome α} {next : α → Parser β}
    (head : outcome.Onward s) (tail : ∀ value s₁, (next value s₁).Onward s₁) :
    (outcome.bind next).Onward s := by
  cases head with
  | done reaches => exact (tail _ _).trans reaches
  | failed reaches here => exact .failed reaches here
  | exhausted => exact .exhausted

/-- A sequence is decided when its parts are. What comes first ends in front of the index, because
what comes later ends there. -/
theorem Decided.bind {index : Nat} {outcome other : Outcome α} {next next' : α → Parser β}
    (head : outcome.Decided index other) (onward : ∀ value s, (next value s).Onward s)
    (tail : ∀ value s s', s.Agrees index s' →
      (next value s).Decided index (next' value s')) :
    (outcome.bind next).Decided index (other.bind next') := by
  cases outcome with
  | exhausted => trivial
  | failed failure met =>
    intro room
    obtain ⟨met', rfl, agrees⟩ := head room
    exact ⟨met', rfl, agrees⟩
  | done value middle =>
    rw [bind_done]
    -- Whatever the second part ends in lies behind the state between them.
    have front {final : State} (reaches : middle.Reaches final) (room : final.cursor + 3 ≤ index) :
        (next value middle).Decided index (other.bind next') := by
      have order := reaches.cursor_le
      obtain ⟨middle', rfl, agrees⟩ := head (by omega)
      exact tail value middle middle' agrees
    have later := onward value middle
    generalize next value middle = outcome at later front ⊢
    cases later with
    | exhausted => trivial
    | done reaches => exact fun room => front reaches room room
    | failed reaches => exact fun room => front reaches room room

end Outcome

namespace Parser

/-- A parser goes on, and under a condition what it comes to is what another comes to as soon as it
lies two tokens in front of where their inputs differ. -/
structure Steady (bounded : Prop) {α : Type} (parser other : Parser α) : Prop where
  onward (s : State) : (parser s).Onward s
  decided : bounded → ∀ {index : Nat} {s s' : State}, s.Agrees index s' →
    (parser s).Decided index (other s')

namespace Steady

variable {bounded : Prop} {α β : Type} {parser other : Parser α}

/-- One parser behind another is steady when both are. -/
theorem bind {next next' : α → Parser β} (head : Steady bounded parser other)
    (tail : ∀ value, Steady bounded (next value) (next' value)) :
    Steady bounded (parser >>= next) (other >>= next') where
  onward s := (head.onward s).bind fun value s₁ => (tail value).onward s₁
  decided holds _ _ _ agrees :=
    (head.decided holds agrees).bind (fun value s₁ => (tail value).onward s₁)
      fun value _ _ agrees => (tail value).decided holds agrees

/-- A steady parser is steady when its result is discarded. -/
theorem discard (steady : Steady bounded parser other) :
    Steady bounded (Functor.discard parser : Parser PUnit) (Functor.discard other) :=
  steady.bind fun _ =>
    { onward := fun s => .done (.refl s)
      decided := fun _ _ _ s' agrees _ => ⟨s', rfl, agrees⟩ }

/-- A parser that has no step left is followed by every other. -/
theorem exhausted : Steady bounded (Parser.exhausted : Parser α) other where
  onward _ := .exhausted
  decided _ _ _ _ _ := trivial

/-- A parser that does not fail is steady when its value and the state behind it are decided. -/
theorem of_done (value : State → α) (target : State → State)
    (known : ∀ s, parser s = .done (value s) (target s))
    (reaches : ∀ s : State, s.Reaches (target s))
    (same : bounded → ∀ {index : Nat} {s s' : State}, s.Agrees index s' →
      (target s).cursor + 3 ≤ index →
        value s' = value s ∧ (target s).Agrees index (target s')) :
    Steady bounded parser parser where
  onward s := known s ▸ .done (reaches s)
  decided holds _ s s' agrees := by
    rw [known, known]
    intro room
    obtain ⟨equal, behind⟩ := same holds agrees room
    exact ⟨target s', by rw [equal], behind⟩

/-- A parser that only looks at the input is steady when it looks no further than two tokens. -/
theorem of_look (value : State → α) (known : ∀ s, parser s = .done (value s) s)
    (same : ∀ {index : Nat} {s s' : State}, s.Agrees index s' → s.cursor + 2 < index →
      value s' = value s) : Steady bounded parser parser :=
  of_done value (fun s => s) known .refl fun _ _ _ _ agrees room => ⟨same agrees (by omega), agrees⟩

/-- A value without a token is steady. -/
theorem pure (value : α) : Steady bounded (Pure.pure value : Parser α) (Pure.pure value) :=
  of_look (fun _ => value) (fun _ => rfl) fun _ _ => rfl

/-- Looking at the next token is steady. -/
theorem peek : Steady bounded Parser.peek Parser.peek :=
  of_look State.peek peek_apply fun agrees room => agrees.peek (by omega)

/-- Looking at the kind of the next token is steady. -/
theorem peekKind : Steady bounded Parser.peekKind Parser.peekKind :=
  of_look State.peekKind peekKind_apply fun agrees room => agrees.peekKind (by omega)

/-- Looking one token further is steady. -/
theorem secondKind : Steady bounded Parser.secondKind Parser.secondKind :=
  of_look State.secondKind secondKind_apply fun agrees room => agrees.secondKind (by omega)

/-- Looking two tokens further is steady, and nothing looks further. -/
theorem thirdKind : Steady bounded Parser.thirdKind Parser.thirdKind :=
  of_look State.thirdKind thirdKind_apply fun agrees room => agrees.thirdKind room

/-- Asking whether a new element begins is steady. -/
theorem atNewElement (nesting : Nesting) :
    Steady bounded (Parser.atNewElement nesting) (Parser.atNewElement nesting) :=
  of_look (·.atGap nesting) (atNewElement_apply nesting)
    fun agrees room => agrees.atGap (by omega) nesting

/-- Going over a token is steady. -/
theorem advance : Steady bounded Parser.advance Parser.advance := by
  refine of_done (fun _ => ()) State.next advance_apply (fun s => (State.Reaches.refl s).next)
    fun _ _ s s' agrees room => ?_
  have order := (State.Reaches.refl s).next.cursor_le
  exact ⟨rfl, agrees.next (by omega)⟩

/-- Skipping is steady: it stops at the same token, or goes beyond the place in both runs. -/
theorem skipWhile (test : Kind → Bool) :
    Steady bounded (Parser.skipWhile test) (Parser.skipWhile test) := by
  refine of_done (fun _ => ()) (·.skip test) (skipWhile_apply test)
    (fun s => (State.Reaches.refl s).skip test) fun _ _ _ _ agrees room => ?_
  obtain ⟨-, behind⟩ := agrees.skip test (by omega)
  exact ⟨rfl, behind⟩

/-- Noting a name is steady. -/
theorem used (token : Token) : Steady bounded (Parser.used token) (Parser.used token) :=
  of_done (fun _ => declared token) (·.note token.text) (used_apply token)
    (fun s => (State.Reaches.refl s).note token.text)
    fun _ _ _ _ agrees _ => ⟨rfl, agrees.note token.text⟩

/-- A report is steady. -/
theorem report (event : Event) : Steady bounded (Parser.report event) (Parser.report event) :=
  of_done (fun _ => ()) (fun s => { s with events := event :: s.events }) (report_apply event)
    (fun s => (State.Reaches.refl s).congr rfl rfl)
    fun _ _ _ _ agrees _ => ⟨rfl, agrees.consumed, agrees.scope, agrees.rest⟩

/-- A complaint is made where it is found. -/
theorem complain (complaint : Complaint) :
    Steady bounded (Parser.complain complaint : Parser α) (Parser.complain complaint) where
  onward s := .failed (.refl s) ⟨rfl, rfl⟩
  decided _ _ s s' agrees room := by
    refine ⟨s', ?_, agrees⟩
    have found : s'.rest.head? = s.rest.head? := agrees.peek (by omega)
    rw [complain_apply, found, agrees.pos (by omega)]

/-- A rejection is steady: it looks at no token. -/
theorem reject (flaw : Flaw) (pos : Position) :
    Steady bounded (Parser.reject flaw pos : Parser α) (Parser.reject flaw pos) where
  onward s := .failed (.refl s) trivial
  decided _ _ _ s' agrees _ := ⟨s', rfl, agrees⟩

/-- A demand with a complaint of its own is steady. -/
theorem expectOr (complaint : Complaint) (kind : Kind) :
    Steady bounded (Parser.expectOr complaint kind) (Parser.expectOr complaint kind) := by
  refine peek.bind fun found => ?_
  cases found with
  | none => exact .complain complaint
  | some token =>
    dsimp only
    split
    · exact advance.bind fun _ => .pure token
    · exact .complain complaint

/-- A demand for a kind is steady. -/
theorem expect (kind : Kind) : Steady bounded (Parser.expect kind) (Parser.expect kind) :=
  expectOr _ kind

/-- Going over a token of a kind, if it is there, is steady. -/
theorem consume (kind : Kind) : Steady bounded (Parser.consume kind) (Parser.consume kind) := by
  refine peekKind.bind fun found => ?_
  split
  · exact advance.bind fun _ => .pure true
  · exact .pure false

/-- A demand for a name that is used is steady. -/
theorem expectUsed : Steady bounded Parser.expectUsed Parser.expectUsed :=
  (expect .ident).bind used

/-- A demand for a name that is declared is steady. -/
theorem expectDeclared : Steady bounded Parser.expectDeclared Parser.expectDeclared :=
  (expect .ident).bind fun token => .pure (declared token)

end Steady

end Parser

end MatlabFront
