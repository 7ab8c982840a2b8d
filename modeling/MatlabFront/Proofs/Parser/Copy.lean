import MatlabFront.Proofs.Parser.Advance
import MatlabFront.Proofs.Parser.Relocate
import MatlabFront.Proofs.Token.Lossless

/-!
# Parsing a copy of some tokens

A copy of some tokens stands elsewhere: each token at a moved position, and behind other tokens. A
parse follows another when it reads the copies of the tokens that the other reads: it comes to the
same values at moved positions, or fails for the same reason at the copy of the same token. What
holds of sequences and of the basic parsers is collected here.
-/

namespace MatlabFront

/-- The innermost bracket that is open behind some tokens is that of a literal. -/
def InLiteral (tokens : List Token) : Prop :=
  (bracketsBehind [] tokens).head? = some .leftBracket ∨
    (bracketsBehind [] tokens).head? = some .leftBrace

/-- The failure of a parse of some tokens names one of them: the token that was found or the token
of the position, unless the input has ended. -/
def Failure.Within (tokens : List Token) : Failure → Prop
  | .syntaxFault _ (some token) pos => token ∈ tokens ∧ pos = token.pos
  | .syntaxFault _ none pos => pos = .behind tokens
  | .invalidTarget _ pos => ∃ token ∈ tokens, pos = token.pos

/-- A copy of some tokens. -/
structure Copy where
  tokens : List Token
  /-- Where the copy of a token stands. -/
  move : Position → Position
  /-- The tokens in front of the copy, the latest first. -/
  front : List Token

/-- What a parse comes to, whatever state it ends in. -/
def Outcome.result {α : Type} : Outcome α → Option (Except Failure α)
  | .done value _ => some (.ok value)
  | .failed failure _ => some (.error failure)
  | .exhausted => none

/-- What is made of the value of a parse is made of its result. -/
theorem Outcome.result_bind_pure {α β : Type} (outcome : Outcome α) (image : α → β) :
    (outcome.bind fun value => (pure (image value) : Parser β)).result =
      outcome.result.map (Except.map image) := by
  cases outcome <;> rfl

namespace Copy

/-- The copy with the tokens in front. -/
def whole (copy : Copy) : List Token :=
  copy.front.reverse ++ copy.tokens.map (Token.relocate copy.move)

/-- The gaps between the tokens of literals are those between their copies. -/
def Faithful (copy : Copy) : Prop :=
  ∀ before first second later, copy.tokens = before ++ first :: second :: later →
    InLiteral (before ++ [first]) →
      (first.relocate copy.move).adjacentTo (second.relocate copy.move) = first.adjacentTo second

/-- One state stands in the tokens where the other stands in their copy. -/
structure Carries (copy : Copy) (s s' : State) : Prop where
  whole : s.consumed.reverse ++ s.rest = copy.tokens
  rest : s'.rest = s.rest.map (Token.relocate copy.move)
  consumed : s'.consumed = s.consumed.map (Token.relocate copy.move) ++ copy.front
  scope : s'.scope = s.scope.map (Scope.relocate copy.move)

/-- One outcome is that of parsing the copy where the other is that of parsing the tokens. When the
steps run out they may last for the copy, unless there are exactly as many. -/
inductive Follows (copy : Copy) (exact : Prop) {α : Type} (image : α → α) :
    Outcome α → Outcome α → Prop where
  | done {value : α} {s s' : State} : copy.Carries s s' →
    copy.Follows exact image (.done value s) (.done (image value) s')
  | failed {failure : Failure} {s s' : State} : failure.Within copy.tokens →
    copy.Follows exact image (.failed failure s)
      (.failed (failure.relocate copy.move (.behind copy.whole)) s')
  | exhausted {other : Outcome α} : (exact → other = .exhausted) →
    copy.Follows exact image .exhausted other

variable {copy : Copy} {exact : Prop} {α β : Type} {image : α → α} {image' : β → β} {s s' : State}

/-- A sequence follows another when its parts follow those of the other. -/
theorem Follows.bind {outcome outcome' : Outcome α} {next next' : α → Parser β}
    (head : copy.Follows exact image outcome outcome')
    (tail : ∀ value s s', outcome = .done value s → copy.Carries s s' →
      copy.Follows exact image' (next value s) (next' (image value) s')) :
    copy.Follows exact image' (outcome.bind next) (outcome'.bind next') := by
  cases head with
  | done carries => exact tail _ _ _ rfl carries
  | failed within => exact .failed within
  | exhausted stops => exact .exhausted fun same => by rw [stops same, Outcome.bind_exhausted]

/-- One parser behind another follows its copy when both of them do, the second one from any states
in which the first one ends. -/
theorem Follows.andThen {parser parser' : Parser α} {next next' : α → Parser β}
    (head : copy.Follows exact image (parser s) (parser' s'))
    (tail : ∀ value s₁ s₁', parser s = .done value s₁ → copy.Carries s₁ s₁' →
      copy.Follows exact image' (next value s₁) (next' (image value) s₁')) :
    copy.Follows exact image' ((parser >>= next) s) ((parser' >>= next') s') := by
  rw [Parser.bind_apply, Parser.bind_apply]
  exact head.bind tail

/-- A value is made of the image of what it was made of before. -/
theorem Follows.pure (carries : copy.Carries s s') (value : α) {value' : α}
    (same : value' = image value) :
    copy.Follows exact image ((Pure.pure value : Parser α) s) ((Pure.pure value' : Parser α) s') :=
  same ▸ .done carries

/-- A value is the image of what it was before. -/
theorem Follows.value (carries : copy.Carries s s') {value value' : α}
    (same : value' = image value) : copy.Follows exact image (.done value s) (.done value' s') :=
  same ▸ .done carries

/-- The result of a parse is copied with its positions. -/
theorem Follows.result {outcome outcome' : Outcome α} {result : Except Failure α}
    (follows : copy.Follows exact image outcome outcome') (known : outcome.result = some result) :
    outcome'.result = some (relocateResult copy.move (.behind copy.whole) image result) := by
  cases follows with
  | done | failed =>
    obtain rfl := Option.some.inj known
    rfl
  | exhausted => cases known

/-- With as many steps for the copy, its result is that of the tokens with moved positions. -/
theorem Follows.result_eq {outcome outcome' : Outcome α}
    (follows : copy.Follows exact image outcome outcome') (exactly : exact) :
    outcome'.result =
      outcome.result.map (relocateResult copy.move (.behind copy.whole) image) := by
  cases follows with
  | done | failed => rfl
  | exhausted stops => rw [stops exactly]; rfl

/-- A failure lies in the tokens. -/
theorem Follows.within {outcome outcome' : Outcome α} {failure : Failure}
    (follows : copy.Follows exact image outcome outcome')
    (known : outcome.result = some (.error failure)) : failure.Within copy.tokens := by
  cases follows with
  | done | exhausted => cases known
  | failed within =>
    obtain rfl := Except.error.inj (Option.some.inj known)
    exact within

namespace Carries

/-- The next tokens are copies of each other. -/
theorem peek (carries : copy.Carries s s') :
    s'.peek = s.peek.map (Token.relocate copy.move) := by
  rw [State.peek, State.peek, carries.rest, List.head?_map]

/-- A token that comes next comes next in the copy, with its position moved. -/
theorem peek_of {token : Token} (carries : copy.Carries s s') (known : s.peek = some token) :
    s'.peek = some (token.relocate copy.move) := by
  rw [carries.peek, known, Option.map_some]

/-- Where no token is left, none is left in the copy. -/
theorem peek_of_end (carries : copy.Carries s s') (ended : s.peek = none) : s'.peek = none := by
  rw [carries.peek, ended, Option.map_none]

/-- The next token is of the same kind in the copy. -/
theorem peekKind (carries : copy.Carries s s') : s'.peekKind = s.peekKind := by
  rw [State.peekKind, State.peekKind, carries.rest]
  cases s.rest <;> rfl

/-- The second token is of the same kind in the copy. -/
theorem secondKind (carries : copy.Carries s s') : s'.secondKind = s.secondKind := by
  rw [State.secondKind, State.secondKind, carries.rest]
  obtain _ | ⟨first, _ | ⟨second, later⟩⟩ := s.rest <;> rfl

/-- The third token is of the same kind in the copy. -/
theorem thirdKind (carries : copy.Carries s s') : s'.thirdKind = s.thirdKind := by
  rw [State.thirdKind, State.thirdKind, carries.rest]
  obtain _ | ⟨first, _ | ⟨second, _ | ⟨third, later⟩⟩⟩ := s.rest <;> rfl

/-- The tokens that are left are among those that are copied. -/
theorem mem_of_rest (carries : copy.Carries s s') {token : Token} (inside : token ∈ s.rest) :
    token ∈ copy.tokens :=
  carries.whole ▸ List.mem_append_right _ inside

/-- The tokens that are read run on to those that are left. -/
theorem advance {run : List Token} {final final' : State} (carries : copy.Carries s s')
    (one : s.Advances run final) (rest : final'.rest = final.rest.map (Token.relocate copy.move))
    (consumed : final'.consumed = (run.map (Token.relocate copy.move)).reverse ++ s'.consumed)
    (scope : final'.scope = final.scope.map (Scope.relocate copy.move)) :
    copy.Carries final final' where
  whole := by
    rw [one.consumed, List.reverse_append, List.reverse_reverse, List.append_assoc, ← one.rest,
      carries.whole]
  rest := rest
  consumed := by
    rw [consumed, carries.consumed, one.consumed, List.map_append, List.map_reverse,
      List.append_assoc]
  scope := scope

/-- Going over a token keeps the copy in step. -/
theorem next (carries : copy.Carries s s') : copy.Carries s.next s'.next := by
  cases known : s.peek with
  | none =>
    rwa [State.next_of_end known, State.next_of_end (carries.peek_of_end known)]
  | some token =>
    refine carries.advance (.next known) ?_ ?_ carries.scope
    · rw [State.next, State.next, carries.rest, List.map_tail]
    · rw [State.consumed_next (carries.peek_of known)]
      rfl

/-- The same tokens are skipped. -/
theorem skip (carries : copy.Carries s s') (test : Kind → Bool) :
    copy.Carries (s.skip test) (s'.skip test) := by
  have kinds : (fun token : Token => test token.kind) ∘ Token.relocate copy.move =
    fun token => test token.kind := rfl
  refine carries.advance (.skip s test) ?_ ?_ carries.scope
  · rw [State.skip, State.skip, carries.rest, List.dropWhile_map, kinds]
  · rw [State.skip, carries.rest, List.takeWhile_map, kinds]

/-- A name that is noted on both sides keeps the copy in step. -/
theorem note (carries : copy.Carries s s') (name : String) :
    copy.Carries (s.note name) (s'.note name) := by
  unfold State.note
  split
  · refine ⟨carries.whole, carries.rest, carries.consumed, ?_⟩
    rw [carries.scope]
    cases s.scope <;> rfl
  · exact carries

/-- The events do not matter. -/
theorem events (carries : copy.Carries s s') (events events' : List Event) :
    copy.Carries { s with events := events } { s' with events := events' } :=
  ⟨carries.whole, carries.rest, carries.consumed, carries.scope⟩

/-- Where the input ends, the copy ends. -/
theorem pos_of_end (carries : copy.Carries s s') (ended : s.rest = []) :
    s.pos = .behind copy.tokens ∧ s'.pos = .behind copy.whole := by
  have behind {s : State} (ended : s.rest = []) : s.pos = .behind s.consumed.reverse := by
    rw [State.pos, ended, Position.behind, List.getLast?_reverse]
    cases s.consumed <;> rfl
  have ended' : s'.rest = [] := by rw [carries.rest, ended, List.map_nil]
  have whole : s.consumed.reverse = copy.tokens := by
    rw [← carries.whole, ended, List.append_nil]
  refine ⟨by rw [behind ended, whole], ?_⟩
  rw [behind ended', carries.consumed, Copy.whole, ← whole, List.reverse_append, List.map_reverse]

/-- The next token begins a new element of a literal where its copy does. -/
theorem gapBeginsElement (carries : copy.Carries s s') (faithful : copy.Faithful)
    (inside : InLiteral s.consumed.reverse) :
    Parser.gapBeginsElement s'.consumed s'.rest = Parser.gapBeginsElement s.consumed s.rest := by
  obtain ⟨last, consumed, read⟩ : ∃ last consumed, s.consumed = last :: consumed := by
    refine List.exists_cons_of_ne_nil fun none => ?_
    simp [none, InLiteral, bracketsBehind] at inside
  rw [read, List.reverse_cons] at inside
  have whole := carries.whole
  rw [carries.rest, carries.consumed, read]
  rw [read, List.reverse_cons, List.append_assoc] at whole
  cases left : s.rest with
  | nil => rfl
  | cons next later =>
    rw [left] at whole
    have first := faithful consumed.reverse last next later whole.symm inside
    -- A sign is no bracket, so that the token behind it stands in the literal as well.
    have second (following : Token) (more : List Token) (known : later = following :: more)
        (plain : ∀ brackets, Context.bracketsAfter brackets next.kind = brackets) :
        (next.relocate copy.move).adjacentTo (following.relocate copy.move) =
          next.adjacentTo following := by
      refine faithful (consumed.reverse ++ [last]) next following more ?_ ?_
      · rw [← whole, known, List.append_assoc]
      · rw [InLiteral, bracketsBehind, List.foldl_append, List.foldl_cons, List.foldl_nil, plain]
        exact inside
    simp only [List.map_cons, List.cons_append, Parser.gapBeginsElement, first,
      Token.relocate_kind]
    cases kind : next.kind <;> try rfl
    all_goals
      have plain (brackets : List Kind) : Context.bracketsAfter brackets next.kind = brackets := by
        simp [kind, Context.bracketsAfter, Kind.opensBracket, Kind.closesBracket]
      cases known : later with
      | nil => rfl
      | cons following more => simp only [List.map_cons, second following more known plain]

end Carries

section Basic

/-- A complaint is made about the copy of the token that it is made about. -/
theorem Follows.complain (carries : copy.Carries s s') (complaint : Complaint) :
    copy.Follows exact image (Parser.complain complaint s) (Parser.complain complaint s') := by
  simp only [Parser.complain_apply, carries.rest, List.head?_map]
  cases left : s.rest with
  | nil =>
    obtain ⟨here, there⟩ := carries.pos_of_end left
    rw [here, there]
    exact .failed rfl
  | cons token rest =>
    have here : s.pos = token.pos := by rw [State.pos, left]
    have there : s'.pos = copy.move token.pos := by rw [State.pos, carries.rest, left]; rfl
    rw [here, there]
    exact .failed ⟨carries.mem_of_rest (left ▸ List.mem_cons_self), rfl⟩

/-- A flaw is found at the copy of the token that it is found at. -/
theorem Follows.reject (flaw : Flaw) {pos : Position}
    (known : ∃ token ∈ copy.tokens, pos = token.pos) :
    copy.Follows exact image (Parser.reject flaw pos s) (Parser.reject flaw (copy.move pos) s') :=
  .failed known

/-- A report takes no token, whatever is reported on the other side. -/
theorem Follows.report (carries : copy.Carries s s') (event event' : Event) :
    copy.Follows exact id (Parser.report event s) (Parser.report event' s') :=
  .done (carries.events _ _)

/-- A token that is demanded is there on both sides or on none. -/
theorem Follows.expectOr (carries : copy.Carries s s') (complaint : Complaint) (kind : Kind) :
    copy.Follows exact (Token.relocate copy.move) (Parser.expectOr complaint kind s)
      (Parser.expectOr complaint kind s') := by
  simp only [Parser.expectOr, Parser.bind_apply, Parser.peek_apply, Outcome.bind_done]
  cases known : s.peek with
  | none =>
    rw [carries.peek_of_end known]
    exact .complain carries complaint
  | some token =>
    rw [carries.peek_of known]
    by_cases same : token.kind = kind
    · simp only [Token.relocate_kind, same, ↓reduceIte, Parser.bind_apply, Parser.advance_apply,
        Outcome.bind_done]
      exact .done carries.next
    · simp only [Token.relocate_kind, same, ↓reduceIte]
      exact .complain carries complaint

/-- A token of a kind is there on both sides or on none. -/
theorem Follows.expect (carries : copy.Carries s s') (kind : Kind) :
    copy.Follows exact (Token.relocate copy.move) (Parser.expect kind s) (Parser.expect kind s') :=
  .expectOr carries _ kind

/-- What is dropped need not be followed any further. -/
theorem Follows.discard {parser parser' : Parser α}
    (follows : copy.Follows exact image (parser s) (parser' s')) :
    copy.Follows exact id ((Functor.discard parser : Parser PUnit) s)
      ((Functor.discard parser' : Parser PUnit) s') := by
  simp only [Parser.discard_apply]
  exact follows.bind fun _ _ _ _ carries => .done carries

end Basic

end Copy

end MatlabFront
