import MatlabFront.Proofs.Checked.Stands

/-!
# Readers that track parsers

A reader tracks a parser when, from a cursor and a state that stand at the same place, both come to
the same value or the same failure, at the same place again and with the same brackets and functions
open. So a reader that tracks a parser comes to no breach. That some checks hold is known only from
tokens that have been looked at before, which is why a reader tracks a parser from the states with a
property. The rules follow the text of the readers: one for each basic reader, one for a sequence,
and some for what is looked at first and known afterwards.
-/

namespace MatlabFront.Checked

/-- A verdict and an outcome are the same, and nothing was opened or closed. -/
inductive Agrees (depth : Depth) {α : Type} : Verdict α → Outcome α → Prop where
  | done {value : α} {c : Cursor} {s : State} : c.depth = depth → Stands c s →
    Agrees depth (.done value c) (.done value s)
  | failed {failure : Failure} {c : Cursor} {s : State} : c.depth = depth → c.events = s.events →
    Ordinary failure → Agrees depth (.failed failure c) (.failed failure s)
  | exhausted : Agrees depth .exhausted .exhausted

/-- A reader comes to what a parser comes to, from every state with a property. -/
def Tracks (depth : Depth) (known : State → Prop) {α : Type} (reader : Reader α)
    (parser : Parser α) : Prop :=
  ∀ c s, c.depth = depth → Stands c s → known s → Agrees depth (reader c) (parser s)

/-- Nothing is known about a state. -/
abbrev Anywhere : State → Prop := fun _ => True

/-- A state lies behind the next token of one with a property. -/
def Behind (known : State → Prop) : State → Prop := fun s =>
  ∃ before, known before ∧ s = before.next

/-- A sequence agrees when its parts do. -/
theorem Agrees.bind {depth : Depth} {α β : Type} {verdict : Verdict α} {outcome : Outcome α}
    {next : α → Reader β} {next' : α → Parser β} (head : Agrees depth verdict outcome)
    (tail : ∀ value, Tracks depth Anywhere (next value) (next' value)) :
    Agrees depth (verdict.bind next) (outcome.bind next') := by
  cases head with
  | done deep stands => exact tail _ _ _ deep stands trivial
  | failed deep events ordinary => exact .failed deep events ordinary
  | exhausted => exact .exhausted

namespace Tracks

variable {depth : Depth} {known other : State → Prop} {α β γ : Type} {reader : Reader α}
  {parser : Parser α}

/-- A sequence tracks a sequence when its parts do. -/
theorem bind {next : α → Reader β} {next' : α → Parser β} (head : Tracks depth known reader parser)
    (tail : ∀ value, Tracks depth Anywhere (next value) (next' value)) :
    Tracks depth known (reader >>= next) (parser >>= next') := fun c s deep stands holds =>
  (head c s deep stands holds).bind tail

/-- More may be known than is needed. -/
theorem weaken (tracks : Tracks depth known reader parser) (implied : ∀ s, other s → known s) :
    Tracks depth other reader parser := fun c s deep stands holds =>
  tracks c s deep stands (implied s holds)

/-- What is tracked from every state is tracked from those with a property. -/
theorem anyway (tracks : Tracks depth Anywhere reader parser) : Tracks depth known reader parser :=
  tracks.weaken fun _ _ => trivial

/-- A parser may be written in another way. -/
theorem congr {parser' : Parser α} (tracks : Tracks depth known reader parser')
    (same : ∀ s, known s → parser s = parser' s) : Tracks depth known reader parser :=
  fun c s deep stands holds => same s holds ▸ tracks c s deep stands holds

/-- A reader may be written in another way. -/
theorem congr_reader {reader' : Reader α} (tracks : Tracks depth known reader' parser)
    (same : ∀ c s, Stands c s → known s → reader c = reader' c) :
    Tracks depth known reader parser :=
  fun c s deep stands holds => same c s stands holds ▸ tracks c s deep stands holds

/-- From states in which no cursor stands everything is tracked. -/
theorem impossible (never : ∀ c s, Stands c s → ¬known s) : Tracks depth known reader parser :=
  fun c s _ stands holds => absurd holds (never c s stands)

/-- Discarding what both come to keeps them together. -/
theorem discard (tracks : Tracks depth known reader parser) :
    Tracks depth known (Functor.discard reader : Reader PUnit) (Functor.discard parser) :=
  tracks.bind fun _ _ _ deep stands _ => .done deep stands

/-- Both run out of steps. -/
theorem exhausted : Tracks depth known (Checked.exhausted : Reader α) Parser.exhausted :=
  fun _ _ _ _ _ => .exhausted

/-- Both give the same value. -/
theorem pure (value : α) : Tracks depth known (Pure.pure value : Reader α) (Pure.pure value) :=
  fun _ _ deep stands _ => .done deep stands

/-- What is looked at first is known in what follows. The reader may take a part of it only. -/
theorem look {looking : Reader γ} {looking' : Parser β} {next : γ → Reader α}
    {next' : β → Parser α} (value : State → β) (part : β → γ)
    (seen : ∀ c s, c.depth = depth → Stands c s → known s →
      looking c = .done (part (value s)) c)
    (seen' : ∀ s, looking' s = .done (value s) s)
    (tail : ∀ found, Tracks depth (fun s => known s ∧ value s = found) (next (part found))
      (next' found)) :
    Tracks depth known (looking >>= next) (looking' >>= next') := by
  intro c s deep stands holds
  rw [bind_apply, seen c s deep stands holds, Parser.bind_apply, seen']
  exact tail (value s) c s deep stands ⟨holds, rfl⟩

/-- What only the reader looks at is a check that holds. -/
theorem check {looking : Reader β} {next : β → Reader α} {found : β}
    (seen : ∀ c s, c.depth = depth → Stands c s → known s → looking c = .done found c)
    (tail : Tracks depth known (next found) parser) :
    Tracks depth known (looking >>= next) parser := by
  intro c s deep stands holds
  rw [bind_apply, seen c s deep stands holds]
  exact tail c s deep stands holds

/-- A next token that is known to be there is read by both. -/
theorem move {moving : Reader β} {moving' : Parser γ} {value : β} {value' : γ}
    {next : β → Reader α} {next' : γ → Parser α}
    (here : ∀ s, known s → ∃ token, s.peek = some token)
    (moved : ∀ c s, Stands c s → known s → moving c = .done value (c.ahead 1))
    (moved' : ∀ s, known s → moving' s = .done value' s.next)
    (tail : Tracks depth (Behind known) (next value) (next' value')) :
    Tracks depth known (moving >>= next) (moving' >>= next') := by
  intro c s deep stands holds
  rw [bind_apply, moved c s stands holds, Parser.bind_apply, moved' s holds]
  obtain ⟨token, found⟩ := here s holds
  exact tail _ _ deep (stands.next found) ⟨s, holds, rfl⟩

section Looking

variable {next : β → Reader α}

/-- Both look at the next token, and what follows may rest on it. -/
theorem peek {next : Option Token → Reader α} {next' : Option Token → Parser α}
    (tail : ∀ found, Tracks depth (fun s => known s ∧ s.peek = found) (next found) (next' found)) :
    Tracks depth known (Checked.peek >>= next) (Parser.peek >>= next') :=
  look State.peek id (fun _ _ _ stands _ => stands.peek_apply) Parser.peek_apply tail

/-- The reader looks at the kind of the next token only. -/
theorem peekKind_of_peek {next : Option Kind → Reader α} {next' : Option Token → Parser α}
    (tail : ∀ found, Tracks depth (fun s => known s ∧ s.peek = found)
      (next (found.map (·.kind))) (next' found)) :
    Tracks depth known (Checked.peekKind >>= next) (Parser.peek >>= next') :=
  look State.peek (Option.map (·.kind)) (fun _ _ _ stands _ => stands.peekKind_apply)
    Parser.peek_apply tail

/-- Both look at the kind of the next token, and what follows may rest on it. -/
theorem peekKind {next : Option Kind → Reader α} {next' : Option Kind → Parser α}
    (tail : ∀ found, Tracks depth (fun s => known s ∧ s.peekKind = found) (next found)
      (next' found)) :
    Tracks depth known (Checked.peekKind >>= next) (Parser.peekKind >>= next') :=
  look State.peekKind id (fun _ _ _ stands _ => stands.peekKind_apply) Parser.peekKind_apply tail

/-- Both see whether a separator comes next. -/
theorem atSeparator {next : Bool → Reader α} {next' : Bool → Parser α}
    (tail : ∀ found, Tracks depth known (next found) (next' found)) :
    Tracks depth known (Checked.atSeparator >>= next) (Parser.atSeparator >>= next') := by
  refine look State.atSeparator id (fun c s _ stands _ => ?_) Parser.atSeparator_apply fun found =>
    (tail found).weaken fun _ => And.left
  rw [Checked.atSeparator, bind_apply, stands.peekKind_apply]
  rfl

/-- A next token that is there has its position. -/
theorem placed {token : Token} {missing : Breach} {next : Position → Reader α}
    (here : ∀ s, known s → s.peek = some token)
    (tail : Tracks depth known (next token.pos) parser) :
    Tracks depth known (Checked.placed missing >>= next) parser := by
  refine check (fun c s _ stands holds => ?_) tail
  rw [Checked.placed, bind_apply, stands.peek_apply, here s holds]
  rfl

/-- A binding power fits in a byte. -/
theorem byte {power : Nat} {next : Nat → Reader α} (small : power < 256)
    (tail : Tracks depth known (next power) parser) :
    Tracks depth known (Checked.byte power >>= next) parser := by
  refine check (fun c s _ _ _ => ?_) tail
  rw [Checked.byte, if_pos small, pure_apply]

end Looking

section Failing

/-- Both fail with the same complaint about the next token, at the same position. -/
theorem complain {complaint : Complaint} (other : complaint ≠ .invalidCharacter) :
    Tracks depth known (Checked.complain complaint : Reader α) (Parser.complain complaint) := by
  intro c s deep stands _
  rw [Checked.complain, bind_apply, stands.peek_apply, Parser.complain_apply, Verdict.bind_done]
  have head : s.rest.head? = s.peek := rfl
  cases found : s.peek with
  | some token =>
    have here : s.pos = token.pos := by rw [State.pos, State.rest_of_peek found]
    rw [head, found, here]
    exact .failed deep stands.events (ordinary_of_complaint other _ _)
  | none =>
    dsimp only
    rw [bind_apply, stands.endPosition_apply found, Verdict.bind_done, head, found]
    exact .failed deep stands.events (ordinary_of_complaint other _ _)

/-- Both reject the same flaw. -/
theorem reject (flaw : Flaw) (pos : Position) :
    Tracks depth known (Checked.reject flaw pos : Reader α) (Parser.reject flaw pos) :=
  fun _ _ deep stands _ => .failed deep stands.events (ordinary_of_flaw flaw pos)

end Failing

section Moving

/-- A next token that is known to be there is moved over. -/
theorem step {next : Unit → Reader α} {next' : Unit → Parser α}
    (here : ∀ s, known s → ∃ token, s.peek = some token)
    (tail : Tracks depth (Behind known) (next ()) (next' ())) :
    Tracks depth known (Checked.step >>= next) (Parser.advance >>= next') :=
  move here (fun _ _ stands _ => stands.step_apply) (fun s _ => Parser.advance_apply s) tail

/-- A known next token is read. -/
theorem next {token : Token} {next : Option Token → Reader α} {next' : Unit → Parser α}
    (here : ∀ s, known s → s.peek = some token)
    (tail : Tracks depth (Behind known) (next (some token)) (next' ())) :
    Tracks depth known (Checked.next >>= next) (Parser.advance >>= next') :=
  move (fun s holds => ⟨token, here s holds⟩)
    (fun _ s stands holds => stands.next_apply (here s holds))
    (fun s _ => Parser.advance_apply s) tail

/-- A next token that is known to be of a kind is what is expected, and no complaint is made. -/
theorem expected {token : Token} {complaint : Complaint} {kind : Kind} {next : Token → Reader α}
    {next' : Unit → Parser α} (here : ∀ s, known s → s.peek = some token) (same : token.kind = kind)
    (tail : Tracks depth (Behind known) (next token) (next' ())) :
    Tracks depth known (Checked.expectOr complaint kind >>= next) (Parser.advance >>= next') := by
  refine move (fun s holds => ⟨token, here s holds⟩) (fun c s stands holds => ?_)
    (fun s _ => Parser.advance_apply s) tail
  simp only [Checked.expectOr, bind_apply, stands.peek_apply, here s holds, Verdict.bind_done,
    same, ↓reduceIte, stands.step_apply, pure_apply]

/-- Both go over the next token. -/
theorem advance : Tracks depth known Checked.advance Parser.advance := by
  intro c s deep stands _
  rw [Parser.advance_apply, Checked.advance, discard_apply]
  cases found : s.peek with
  | some token =>
    rw [stands.next_apply found]
    exact .done deep (stands.next found)
  | none =>
    rw [stands.next_of_end found, State.next_of_end found]
    exact .done deep stands

/-- Both demand the same kind with the same complaint. -/
theorem expectOr (complaint : Complaint) (kind : Kind) (other : complaint ≠ .invalidCharacter) :
    Tracks depth known (Checked.expectOr complaint kind) (Parser.expectOr complaint kind) := by
  refine peek fun found => ?_
  cases found with
  | none => exact complain other
  | some token =>
    dsimp only
    split
    · exact step (fun s holds => ⟨token, holds.2⟩) (.pure token)
    · exact complain other

/-- Both demand the same kind. -/
theorem expect (kind : Kind) : Tracks depth known (Checked.expect kind) (Parser.expect kind) :=
  expectOr _ kind (by simp)

/-- Both demand the keyword that closes a block. -/
theorem expectEnd (block : Block) :
    Tracks depth known (Checked.expectEnd block) (Parser.expectEnd block) :=
  (expectOr (.missingEnd block) .endKeyword (by simp)).discard

/-- Both go over a token of a kind if it comes next. -/
theorem consume (kind : Kind) :
    Tracks depth known (Checked.consume kind) (Parser.consume kind) := by
  intro c s deep stands _
  rw [Parser.consume_apply, Checked.consume, bind_apply, stands.peekKind_apply, Verdict.bind_done]
  split
  · next same =>
    obtain ⟨token, found, -⟩ := State.peek_of_peekKind same
    rw [bind_apply, stands.step_apply]
    exact .done deep (stands.next found)
  · exact .done deep stands

/-- Both demand a name to declare. -/
theorem expectDeclared : Tracks depth known Checked.expectDeclared Parser.expectDeclared :=
  (expect .ident).bind fun _ => .pure _

/-- Both demand a separator. -/
theorem expectSeparator (clause : Clause) :
    Tracks depth known (Checked.expectSeparator clause) (Parser.expectSeparator clause) := by
  refine atSeparator fun found => ?_
  split
  · exact .pure ()
  · exact complain (by simp)

/-- Both demand what may end a statement. -/
theorem expectTerminator :
    Tracks depth known Checked.expectTerminator Parser.expectTerminator := by
  refine peekKind fun found => ?_
  cases found with
  | none => exact .pure ()
  | some kind =>
    dsimp only
    split
    · exact .pure ()
    · exact complain (by simp)

/-- Both make the same report. -/
theorem report (event : Event) :
    Tracks depth known (Checked.report event) (Parser.report event) :=
  fun _ _ deep stands _ => .done deep (stands.report event)

/-- Both skip the same tokens. -/
theorem skipWhile (test : Kind → Bool) :
    Tracks depth known (Checked.skipWhile test) (Parser.skipWhile test) := by
  intro c s deep stands _
  rw [stands.skipWhile_apply, Parser.skipWhile_apply]
  exact .done deep (stands.skip test)

end Moving

section Counting

/-- A name that is known to come next is used. -/
theorem advance_used {token : Token} {next : Ident → Reader α} {next' : Ident → Parser α}
    (here : ∀ s, known s → s.peek = some token)
    (tail : ∀ name, Tracks depth Anywhere (next name) (next' name)) :
    Tracks depth known (Checked.advance >>= fun _ => Checked.used token >>= next)
      (Parser.advance >>= fun _ => Parser.used token >>= next') := by
  intro c s deep stands holds
  have found := here s holds
  obtain ⟨last, counted, same, behind, -⟩ :=
    (stands.next found).used_apply (stands.spare_ahead 1) token
  simp only [bind_apply, Checked.advance, discard_apply, stands.next_apply found,
    Verdict.bind_done, pure_apply, counted, Parser.bind_apply, Parser.advance_apply,
    Outcome.bind_done, Parser.used_apply]
  exact tail _ _ _ (same.trans deep) behind trivial

/-- Both demand a name to use and note it. The count of `nargin` does not overflow. -/
theorem expectUsed : Tracks depth known Checked.expectUsed Parser.expectUsed := by
  intro c s deep stands _
  rw [Checked.expectUsed, Parser.expectUsed, bind_apply, Parser.bind_apply]
  by_cases same : s.peekKind = some .ident
  · obtain ⟨token, found, kind⟩ := State.peek_of_peekKind same
    obtain ⟨last, counted, unmoved, behind, -⟩ :=
      (stands.next found).used_apply (stands.spare_ahead 1) token
    rw [Parser.expect_eq_done.mpr ⟨found, kind, rfl⟩, Outcome.bind_done, Parser.used_apply]
    simp only [Checked.expect, Checked.expectOr, bind_apply, stands.peek_apply, found,
      Verdict.bind_done, kind, ↓reduceIte, stands.step_apply, pure_apply, counted]
    exact .done (unmoved.trans deep) behind
  · have fails : Agrees depth (Checked.expect .ident c) (Parser.expect .ident s) :=
      (expect .ident : Tracks depth Anywhere _ _) c s deep stands trivial
    rw [Parser.expect_of_ne same, Parser.complain_apply] at fails ⊢
    generalize Checked.expect .ident c = verdict at fails ⊢
    cases fails with
    | failed deep events ordinary => exact .failed deep events ordinary

end Counting

/-- What is read in a bracket is tracked with the bracket open. -/
theorem nested {brackets : List Bracket} {functions : Nat} {bracket : Bracket}
    (inside : Tracks ⟨bracket :: brackets, functions⟩ known reader parser) :
    Tracks ⟨brackets, functions⟩ known (Checked.nested bracket reader) parser := by
  intro c s deep stands holds
  obtain ⟨rfl, rfl⟩ := Depth.mk.inj deep
  have opened : Stands { c with brackets := bracket :: c.brackets } s := { stands with }
  have agrees := inside _ s rfl opened holds
  rw [Checked.nested]
  generalize reader _ = verdict, parser s = outcome at agrees ⊢
  cases agrees with
  | done deep stands =>
    obtain ⟨same, functions⟩ := Depth.mk.inj deep
    exact .done (by simp [Cursor.depth, same, functions]) { stands with }
  | failed deep events ordinary =>
    obtain ⟨same, functions⟩ := Depth.mk.inj deep
    exact .failed (by simp [Cursor.depth, same, functions]) events ordinary
  | exhausted => exact .exhausted

end Tracks

end MatlabFront.Checked
