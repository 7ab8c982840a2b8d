import MatlabFront.Proofs.Expression.Complete
import MatlabFront.Proofs.Program.Advance

/-!
# How many steps a program takes

Each part of a program takes tokens from those left. Eight steps for each token and a few more are
counted as enough for a part.
-/

namespace MatlabFront

/-- What is read from a state to another is taken from the tokens left. -/
theorem State.Reaches.length_le {s final : State} (reaches : s.Reaches final) :
    final.rest.length ≤ s.rest.length := reaches.suffix.length_le

/-- Skipping separators takes tokens from those left. -/
theorem State.length_skipSeparators (s : State) :
    s.skipSeparators.rest.length ≤ s.rest.length := ((State.Reaches.refl s).skip _).length_le

/-- A report leaves all tokens where they are. -/
@[simp] theorem State.log_rest (s : State) (event : Event) : (s.log event).rest = s.rest := rfl

/-- Entering a function leaves all tokens where they are. -/
@[simp] theorem State.enter_rest (s : State) (head : Header) : (s.enter head).rest = s.rest := rfl

/-- Leaving a function takes its closing keyword, if it has one. -/
theorem State.leave_rest (s : State) :
    s.leave.rest = if s.peekKind = some .endKeyword then s.next.rest else s.rest := by
  unfold State.leave
  dsimp only
  rw [apply_ite State.rest]
  rfl

namespace Surface

variable {dialect : Dialect} {s final : State}

/-- What is noted of a switch leaves all tokens where they are. -/
@[simp] theorem Cases.logged_rest (s : State) (cases : Cases) :
    (cases.logged s).rest = s.rest := by
  unfold Cases.logged
  split <;> rfl

/-- Names are read each from a token. -/
theorem Names.length_le {names : List Ident} (reads : Names names s final) :
    final.rest.length + names.length ≤ s.rest.length := by
  induction reads with
  | stop => simp
  | name known _ _ ih =>
    have := State.length_next known
    simp only [State.note_rest, List.length_cons] at *
    omega

/-- The header of a `for` takes at least its variable, the sign and a token of its range. -/
theorem ForHead.length_le {var : Ident} {range : Expr} (reads : ForHead var range s final) :
    final.rest.length + 3 ≤ s.rest.length := by
  cases reads with
  | mk known _ _ assigned expression =>
    have := State.length_next known
    have := State.length_next_of_peekKind assigned
    have := expression.length_le
    simp only [Grammar.Phrase.least, State.note_rest] at *
    omega

/-- Outputs in brackets take at least the closing one. -/
theorem BracketedOutputs.length_le {names : List Ident} (reads : BracketedOutputs names s final) :
    final.rest.length + 1 ≤ s.rest.length := by
  induction reads with
  | close known =>
    have := State.length_next_of_peekKind known
    omega
  | comma known _ ih =>
    have := State.length_next_of_peekKind known
    omega
  | name known _ _ ih =>
    have := State.length_next known
    omega

/-- The head of a function takes at least its name. -/
theorem Head.length_le {pos : Position} {head : Header} (reads : Head pos head s final) :
    final.rest.length + 1 ≤ s.rest.length := by
  cases reads with
  | mk declares known _ takes =>
    have := State.length_next known
    have := declares.reaches.length_le
    have := takes.reaches.length_le
    omega

/-- How many tokens a part has at least. -/
def Part.least : Part → Nat
  | .statement _ | .openStatement _ => 1
  | _ => 0

/-- A part of a program takes tokens from those left. -/
theorem Reads.length_le {part : Part} (reads : Reads dialect part s final) :
    final.rest.length + part.least ≤ s.rest.length := by
  induction reads with
  | blockEnd | noCases | noItems => exact State.length_skipSeparators _
  | @block ends first body kind s s₁ s₂ _ _ _ _ _ head tail =>
    have := s.length_skipSeparators
    simp only [Part.least] at *
    omega
  | statement _ _ head => exact head
  | eval _ _ expression _ => exact expression.length_le
  | assign _ _ left sign _ value _ =>
    have := left.length_le
    have := value.length_le
    have := State.length_next sign
    simp only [Part.least, Grammar.Phrase.least] at *
    omega
  | command _ _ _ run =>
    obtain ⟨_, _, -, command⟩ := Parser.command_takes run
    have := command.advances.length
    simp only [Part.least, List.length_cons] at *
    omega
  | branch known _ condition separated _ _ ended body tail =>
    have := State.length_next known
    have := State.length_next_of_peekKind ended
    have := condition.length_le
    have := separated.reaches.length_le
    simp only [Part.least, Grammar.Phrase.least] at *
    omega
  | whileLoop known _ condition _ _ ended body =>
    have := State.length_next known
    have := State.length_next_of_peekKind ended
    have := condition.length_le
    simp only [Part.least, Grammar.Phrase.least] at *
    omega
  | forLoop known _ _ head _ _ ended body =>
    have := State.length_next known
    have := State.length_next_of_peekKind ended
    have := head.length_le
    simp only [Part.least] at *
    omega
  | @forEnclosed var range body token s s₁ s₂ known _ _ head closes _ _ ended body =>
    have := State.length_next known
    have := State.length_next_of_peekKind closes
    have := State.length_next_of_peekKind ended
    have := head.length_le
    have := s.next.length_next_le
    simp only [Part.least] at *
    omega
  | switch known subject _ _ ended cases =>
    have := State.length_next_of_peekKind known
    have := State.length_next_of_peekKind ended
    have := subject.length_le
    simp only [Part.least, Grammar.Phrase.least, Cases.logged_rest] at *
    omega
  | tryOnly known _ _ ended body =>
    have := State.length_next known
    have := State.length_next_of_peekKind ended
    simp only [Part.least] at *
    omega
  | tryCatch known _ _ catches _ ended body handler =>
    have := State.length_next known
    have := State.length_next_of_peekKind catches
    have := State.length_next_of_peekKind ended
    simp only [Part.least] at *
    omega
  | global known _ names =>
    have := State.length_next known
    have := names.length_le
    simp only [Part.least] at *
    omega
  | breakLoop known | continueLoop known | leave known =>
    have := State.length_next known
    simp only [Part.least]
    omega
  | noTail => exact Nat.le_refl _
  | otherwiseTail known _ body =>
    have := State.length_next_of_peekKind known
    simp only [Part.least] at *
    omega
  | branchTail known _ condition _ _ _ body tail =>
    have := State.length_next known
    have := condition.length_le
    simp only [Part.least, Grammar.Phrase.least] at *
    omega
  | @otherwiseCases body s s₁ known _ body =>
    have := s.length_skipSeparators
    have := State.length_next_of_peekKind known
    simp only [Part.least] at *
    omega
  | @caseCases value body cases token s s₁ s₂ s₃ known _ value _ _ _ body cases =>
    have := s.length_skipSeparators
    have := State.length_next known
    have := value.length_le
    simp only [Part.least, Grammar.Phrase.least] at *
    omega
  | @item first items kind s s₁ s₂ _ _ _ _ head tail =>
    have := s.length_skipSeparators
    simp only [Part.least] at *
    omega
  | @function head body items token event s s₁ s₂ s₃ known _ head _ _ _ body tail =>
    have := s.length_skipSeparators
    have := State.length_next known
    have := head.length_le
    have := (State.Reaches.refl s₂).leave.length_le
    simp only [Part.least, State.enter_rest, State.log_rest] at *
    omega

/-- The steps that a part takes before its first token. -/
def Part.level : Part → Nat
  | .tail _ | .cases _ => 1
  | .openStatement _ => 2
  | .statement _ => 3
  | .block .. | .items _ => 4

/-- Some steps are enough for a part between two states. -/
def Part.Fits (part : Part) (s final : State) (steps : Nat) : Prop :=
  8 * s.rest.length + part.level ≤ steps + 8 * final.rest.length

end Surface

end MatlabFront
