import MatlabFront.Proofs.Checked.Wording
import MatlabFront.Proofs.Parser.Advance
import MatlabFront.Proofs.Program.Steps

/-!
# Where a cursor stands

A cursor stands where a state of the parser proper does when the tokens in front of its index are
those that the state has read. Its tokens are those of a vector, so that their number is far below
the largest machine word, and the checks of the basic readers hold: what each of them comes to is an
equation here.
-/

namespace MatlabFront.Checked

namespace Verdict

variable {α β : Type}

/-- A reader behind a value goes on from it. -/
@[simp] theorem bind_done (value : α) (c : Cursor) (next : α → Reader β) :
    (Verdict.done value c).bind next = next value c := rfl

end Verdict

section Readers

variable {α β : Type}

/-- One reader behind another is run on what the first one gives. -/
@[simp] theorem bind_apply (first : Reader α) (next : α → Reader β) (c : Cursor) :
    (first >>= next) c = (first c).bind next := rfl

/-- A value is given and the cursor stays. -/
@[simp] theorem pure_apply (value : α) (c : Cursor) :
    (pure value : Reader α) c = .done value c := rfl

/-- Looking at a field leaves the cursor as it is. -/
@[simp] theorem look_apply (field : Cursor → α) (c : Cursor) :
    look field c = .done (field c) c := rfl

/-- A change of the cursor always succeeds. -/
@[simp] theorem change_apply (move : Cursor → Cursor) (c : Cursor) :
    change move c = .done () (move c) := rfl

instance : LawfulMonad Reader := .mk' Reader
  (fun reader => by
    funext c
    change (reader c).bind Reader.succeed = reader c
    cases reader c <;> rfl)
  (fun _ _ => rfl)
  (fun reader _ _ => by
    funext c
    rw [bind_apply, bind_apply, bind_apply]
    cases reader c <;> rfl)

/-- Discarding a value keeps the cursor, the failures and the breaches. -/
@[simp] theorem discard_apply (reader : Reader α) (c : Cursor) :
    (discard reader : Reader PUnit) c = (reader c).bind fun _ => pure ⟨⟩ := rfl

end Readers

/-- The tokens of a vector on a machine: a vector holds less than half of what a machine word can
count, and the text of each token stops at an offset that fits in a machine word. -/
structure Representable (limit : Nat) (tokens : List Token) : Prop where
  large : 16 ≤ limit
  length : 2 * tokens.length < limit
  stop : ∀ token ∈ tokens, token.stop < limit

/-- The brackets that are open, and the number of functions. -/
structure Depth where
  brackets : List Bracket
  functions : Nat

/-- How deep a cursor stands. -/
def Cursor.depth (c : Cursor) : Depth := ⟨c.brackets, c.scopes.length⟩

/-- So many more uses of `nargin` can be counted before there are more of them than tokens read. -/
def Cursor.Spare (c : Cursor) (count : Nat) : Prop :=
  ∀ scope ∈ c.scopes.head?, scope.uses + count ≤ c.index

/-- Outside all functions there is nothing to count. -/
theorem Cursor.spare_outside {c : Cursor} (outside : c.scopes = []) (count : Nat) :
    c.Spare count := by
  simp [Spare, outside]

/-- Where many uses can be counted, fewer can. -/
theorem Cursor.Spare.fewer {c : Cursor} {count more : Nat} (spare : c.Spare more)
    (less : count ≤ more) : c.Spare count := fun scope inside =>
  Nat.le_trans (Nat.add_le_add_left less _) (spare scope inside)

/-- The cursor some tokens further on. -/
def Cursor.ahead (c : Cursor) (count : Nat) : Cursor := { c with index := c.index + count }

/-- Two moves ahead are one. -/
theorem Cursor.ahead_ahead (c : Cursor) (count more : Nat) :
    (c.ahead count).ahead more = c.ahead (count + more) := by
  rw [ahead, ahead, ahead, Nat.add_assoc]

/-- A cursor stands at the place of a state. -/
structure Stands (c : Cursor) (s : State) : Prop where
  tokens : c.tokens = s.consumed.reverse ++ s.rest
  index : c.index = s.consumed.length
  scope : s.scope = c.scopes.head?.map FunctionScope.noted
  spare : c.Spare 0
  events : c.events = s.events
  representable : Representable c.limit c.tokens
  clean : ∀ token ∈ c.tokens, token.kind ≠ .error

namespace Stands

variable {c : Cursor} {s final : State} {token : Token} (stands : Stands c s)
include stands

/-- The tokens left lie behind the index. -/
theorem tokenAt (count : Nat) : c.tokens[c.index + count]? = s.rest[count]? := by
  rw [stands.tokens, stands.index, ← List.length_reverse, List.getElem?_append_right (by omega),
    Nat.add_sub_cancel_left]

/-- The index and the tokens left make up the tokens. -/
theorem length_eq : c.tokens.length = c.index + s.rest.length := by
  rw [stands.tokens, stands.index, List.length_append, List.length_reverse]

/-- An index a little behind the tokens left still fits in a machine word. -/
theorem index_add_lt {count : Nat} (near : count ≤ s.rest.length + 2) :
    c.index + count < c.limit := by
  have := stands.representable.length
  have := stands.representable.large
  have := stands.length_eq
  omega

/-- A token that is left is one of the input. -/
theorem mem_of_rest (inside : token ∈ s.rest) : token ∈ c.tokens := by
  rw [stands.tokens]
  exact List.mem_append_right _ inside

/-- A token that was read is one of the input. -/
theorem mem_of_consumed (inside : token ∈ s.consumed) : token ∈ c.tokens := by
  rw [stands.tokens]
  exact List.mem_append_left _ (List.mem_reverse.mpr inside)

/-- The next token is one of the input. -/
theorem mem_of_peek (known : s.peek = some token) : token ∈ c.tokens :=
  stands.mem_of_rest (List.mem_of_mem_head? known)

/-- What is behind the next tokens is reached by moving over them. -/
theorem advance {run : List Token} (advances : s.Advances run final)
    (scope : final.scope = s.scope) (events : final.events = s.events) :
    Stands (c.ahead run.length) final where
  tokens := by
    rw [advances.consumed, List.reverse_append, List.reverse_reverse, List.append_assoc,
      ← advances.rest]
    exact stands.tokens
  index := by
    rw [advances.consumed, List.length_append, List.length_reverse, Nat.add_comm, ← stands.index]
    rfl
  scope := scope.trans stands.scope
  spare known inside := Nat.le_add_right_of_le (stands.spare known inside)
  events := stands.events.trans events.symm
  representable := stands.representable
  clean := stands.clean

/-- The place behind a next token. -/
theorem next (known : s.peek = some token) : Stands (c.ahead 1) s.next :=
  stands.advance (.next known) rfl rfl

/-- The place behind some tokens that are skipped. -/
theorem skip (test : Kind → Bool) :
    Stands (c.ahead (s.rest.takeWhile (test ·.kind)).length) (s.skip test) :=
  stands.advance (.skip s test) rfl rfl

/-- An event is noted in both. -/
theorem report (event : Event) :
    Stands { c with events := event :: c.events } { s with events := event :: s.events } := {
  stands with
  events := congrArg (event :: ·) stands.events }

section Looking

omit stands in
/-- A number below the limit is a machine word. -/
theorem machineWord_apply {value : Nat} (small : value < c.limit) :
    machineWord value c = .done value c := by
  simp [machineWord, small]

/-- Some places are so far ahead only as there are tokens, and a few more. -/
theorem peekAt_apply {count : Nat} (near : count ≤ s.rest.length + 2) :
    peekAt count c = .done s.rest[count]? c := by
  simp [peekAt, machineWord_apply (stands.index_add_lt near), stands.tokenAt]

/-- The kind of a token so far ahead is looked up without a breach. -/
theorem kindAt_apply {count : Nat} (near : count ≤ s.rest.length + 2) :
    kindAt count c = .done (s.rest[count]?.map (·.kind)) c := by
  simp [kindAt, stands.peekAt_apply near]

/-- The kind one token ahead is that which the parser proper sees. -/
theorem secondKind_apply : kindAt 1 c = .done s.secondKind c := by
  rw [stands.kindAt_apply (by omega), State.secondKind, List.head?_eq_getElem?,
    List.getElem?_tail]

/-- The kind two tokens ahead is that which the parser proper sees. -/
theorem thirdKind_apply : kindAt 2 c = .done s.thirdKind c := by
  rw [stands.kindAt_apply (by omega), State.thirdKind, List.head?_eq_getElem?,
    List.getElem?_tail, List.getElem?_tail]

/-- The next token is that which the parser proper sees. -/
theorem peek_apply : peek c = .done s.peek c := by
  have first := stands.tokenAt 0
  rw [Nat.add_zero, ← List.head?_eq_getElem?] at first
  rw [peek, look_apply, first, State.peek]

/-- The kind of the next token is that which the parser proper sees. -/
theorem peekKind_apply : peekKind c = .done s.peekKind c := by
  rw [peekKind, bind_apply, stands.peek_apply]
  rfl

/-- The token behind the cursor is the last one read. Its index does not fall below zero. -/
theorem previous_apply : previous c = .done s.consumed.head? c := by
  rw [previous, bind_apply, look_apply, Verdict.bind_done, stands.index]
  cases read : s.consumed with
  | nil => rfl
  | cons last consumed =>
    have inside : c.tokens[consumed.length]? = some last := by
      simp [stands.tokens, read]
    simp [inside]

/-- The end of a token of the input fits in a machine word. -/
theorem stop_apply (inside : token ∈ c.tokens) : Checked.stop token c = .done token.stop c :=
  machineWord_apply (stands.representable.stop token inside)

/-- Whether two tokens touch is found without a breach. -/
theorem adjacent_apply (inside : token ∈ c.tokens) (other : Token) :
    adjacent token other c = .done (token.adjacentTo other) c := by
  simp [adjacent, stands.stop_apply inside, Token.adjacentTo]

/-- The end of the input is where the parser proper finds it. -/
theorem endPosition_apply (ended : s.peek = none) : endPosition c = .done s.pos c := by
  have empty : s.rest = [] := List.head?_eq_none_iff.mp ended
  have last : c.tokens.getLast? = s.consumed.head? := by
    rw [stands.tokens, empty, List.append_nil, List.getLast?_reverse]
  rw [endPosition, bind_apply, look_apply, Verdict.bind_done, last, State.pos, empty]
  cases read : s.consumed with
  | nil => rfl
  | cons final consumed =>
    have inside : final ∈ c.tokens := stands.mem_of_consumed (by simp [read])
    simp [stands.stop_apply inside]

end Looking

section Moving

/-- The index of the next place fits in a machine word. -/
theorem step_apply : step c = .done () (c.ahead 1) := by
  have small : c.index + 1 < c.limit := stands.index_add_lt (by omega)
  simp [step, machineWord_apply small, Cursor.ahead]

/-- The next token is given and gone over. -/
theorem next_apply (known : s.peek = some token) :
    Checked.next c = .done (some token) (c.ahead 1) := by
  simp only [Checked.next, bind_apply, stands.peek_apply, known, Verdict.bind_done,
    Option.isSome_some, ↓reduceIte, stands.step_apply, pure_apply]

/-- At the end of the input the cursor stays. -/
theorem next_of_end (ended : s.peek = none) : Checked.next c = .done none c := by
  simp [Checked.next, stands.peek_apply, ended]

/-- Tokens are skipped one after the other, up to the first that a test refuses. -/
theorem skipWhileFrom_apply {test : Kind → Bool} {fuel : Nat} (enough : s.rest.length < fuel) :
    skipWhileFrom test fuel c =
      .done () (c.ahead (s.rest.takeWhile (test ·.kind)).length) := by
  induction fuel generalizing c s with
  | zero => exact absurd enough (Nat.not_lt_zero _)
  | succ fuel ih =>
    rw [skipWhileFrom, bind_apply, stands.peekKind_apply, Verdict.bind_done]
    cases found : s.peek with
    | none =>
      have empty : s.rest = [] := List.head?_eq_none_iff.mp found
      rw [State.peekKind_of_end found, empty]
      rfl
    | some token =>
      have rest := State.rest_of_peek found
      have shorter : s.next.rest.length < fuel := by
        rw [rest, List.length_cons] at enough
        omega
      rw [State.peekKind_of_peek found, Option.any_some, rest, List.takeWhile_cons]
      split
      · rw [bind_apply, stands.step_apply, Verdict.bind_done, ih (stands.next found) shorter,
          Cursor.ahead_ahead, List.length_cons, Nat.add_comm]
      · rfl

/-- The rounds of a loop are more than the tokens that are left. -/
theorem rounds_apply {α : Type} (body : Nat → Reader α) :
    ∃ fuel, s.rest.length < fuel ∧ rounds body c = body fuel c :=
  ⟨c.tokens.length + 1, by have := stands.length_eq; omega, rfl⟩

/-- Skipping goes over what the parser proper skips. -/
theorem skipWhile_apply (test : Kind → Bool) :
    skipWhile test c = .done () (c.ahead (s.rest.takeWhile (test ·.kind)).length) := by
  obtain ⟨fuel, enough, same⟩ := stands.rounds_apply (skipWhileFrom test)
  rw [skipWhile, same, stands.skipWhileFrom_apply enough]

end Moving

section Counting

omit stands in
/-- Outside all functions no use is noted. -/
theorem note_of_outside (outside : s.scope = none) (name : String) : s.note name = s := by
  obtain ⟨consumed, rest, scope, events⟩ := s
  obtain rfl : scope = none := outside
  exact ite_self _

/-- A use is counted in the innermost function as long as there are tokens read for it. -/
theorem countUse_apply {count : Nat} (spare : c.Spare (count + 1)) :
    ∃ last, countUse c = .done () last ∧ last.depth = c.depth ∧ Stands last (s.note "nargin") ∧
      last.Spare count := by
  rw [countUse, bind_apply, look_apply, Verdict.bind_done]
  cases inner : c.scopes with
  | nil =>
    have outside : s.scope = none := by rw [stands.scope, inner]; rfl
    exact ⟨c, rfl, rfl, (note_of_outside outside "nargin").symm ▸ stands,
      Cursor.spare_outside inner count⟩
  | cons scope scopes =>
    have room : scope.uses + (count + 1) ≤ c.index := spare scope (by simp [inner])
    have small : scope.uses + 1 < c.limit := by
      have := stands.index_add_lt (Nat.zero_le _)
      omega
    have noted : (s.note "nargin").scope = some ⟨scope.outputs, true⟩ := by
      simp [State.note, stands.scope, inner, FunctionScope.noted]
    refine ⟨{ c with scopes := { scope with uses := scope.uses + 1 } :: scopes }, ?_, ?_, ?_, ?_⟩
    · simp only [bind_apply, machineWord_apply small, Verdict.bind_done, change_apply]
    · rw [Cursor.depth, Cursor.depth, inner]
      rfl
    · exact {
        stands with
        scope := by rw [noted]; simp [FunctionScope.noted]
        spare := by
          rintro _ ⟨⟩
          change scope.uses + 1 ≤ c.index
          omega }
    · rintro _ ⟨⟩
      change scope.uses + 1 + count ≤ c.index
      omega

/-- A name is used as long as there are tokens read for its use. -/
theorem used_apply {count : Nat} (spare : c.Spare (count + 1)) (token : Token) :
    ∃ last, used token c = .done (Parser.declared token) last ∧ last.depth = c.depth ∧
      Stands last (s.note token.text) ∧ last.Spare count := by
  unfold used
  by_cases counts : token.text = "nargin"
  · obtain ⟨last, counted, deep, behind, left⟩ := stands.countUse_apply spare
    rw [if_pos counts, bind_apply, counted, counts]
    exact ⟨last, rfl, deep, behind, left⟩
  · have same : s.note token.text = s := by simp [State.note, counts]
    rw [if_neg counts]
    exact ⟨c, rfl, rfl, same.symm ▸ stands, spare.fewer (Nat.le_succ count)⟩

/-- Each token that is read makes room for one use. -/
theorem spare_ahead (count : Nat) : (c.ahead count).Spare count := fun scope inside =>
  Nat.add_le_add_right (stands.spare scope inside) count

end Counting

end Stands

end MatlabFront.Checked
