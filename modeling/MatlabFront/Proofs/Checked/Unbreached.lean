import MatlabFront.Proofs.Checked.TracksProgram
import MatlabFront.Proofs.Program.Progress

/-!
# No breach is ever come to

The parser in machine words tracks the parser proper on every list of tokens that a vector can hold,
so that none of its checks fails and none of the cases that are meant never to arise does.
-/

namespace MatlabFront.Checked

variable {width : Nat} {tokens : List Token}

/-- In front of its tokens the parser stands outside all brackets and functions. -/
theorem stands_start (fits : Representable (2 ^ width) tokens)
    (clean : tokens.find? (·.kind == .error) = none) :
    Stands (.start width tokens) (.start tokens) where
  tokens := rfl
  index := rfl
  scope := rfl
  spare := Cursor.spare_outside rfl 0
  events := rfl
  representable := fits
  clean token inside := by simpa using List.find?_eq_none.mp clean token inside

/-- A program is read without a breach, and whatever comes of it, every bracket and every function
that was entered has been left. -/
theorem program_agrees (dialect : Dialect) (fits : Representable (2 ^ width) tokens)
    (clean : tokens.find? (·.kind == .error) = none) :
    Agrees ⟨[], 0⟩ (program dialect (.start width tokens))
      (Parser.program dialect (.start tokens)) := by
  have whole : Tracks ⟨[], 0⟩ Anywhere
      (do return ⟨← topLevel (Parser.steps tokens) dialect⟩ : Reader Program)
      (do return ⟨← Parser.topLevel (Parser.steps tokens) dialect⟩ : Parser Program) :=
    (Tracks.topLevel (Parser.steps tokens)).bind fun _ => .pure _
  exact whole _ _ rfl (stands_start fits clean) trivial

/-- A verdict that agrees with an outcome is no breach, and reads as the same. -/
theorem reading_of_agrees {depth : Depth} {verdict : Verdict Program} {outcome : Outcome Program}
    (agrees : Agrees depth verdict outcome) :
    verdict.reading = .ok (.ofOutcome outcome) := by
  cases agrees with
  | done deep stands => rw [Verdict.reading, stands.events, Reading.ofOutcome]
  | failed deep events ordinary => rw [Verdict.reading, events, Reading.ofOutcome]
  | exhausted => rfl

/-- An outcome that agrees with a verdict fails, if at all, with an ordinary failure. -/
theorem ordinary_of_agrees {depth : Depth} {verdict : Verdict Program} {outcome : Outcome Program}
    {failure : Failure} (agrees : Agrees depth verdict outcome)
    (failed : (Reading.ofOutcome outcome).result = some (.error failure)) : Ordinary failure := by
  cases agrees with
  | done | exhausted => cases failed
  | failed deep events ordinary =>
    cases failed
    exact ordinary

/-- On tokens that a vector can hold, the parser in machine words comes to no breach in either
dialect: no number overflows or falls below zero, no text is cut inside a character, no function is
closed twice, and no case that is meant never to arise does. It reads what the parser proper reads,
which comes to a program or a failure, and no failure is worded like a breach. -/
theorem reading_eq_ofTokens (width : Nat) (dialect : Dialect) (tokens : List Token)
    (fits : Representable (2 ^ width) tokens) :
    reading width dialect tokens = .ok (Reading.ofTokens dialect tokens) ∧
      ∃ result, Program.ofTokens dialect tokens = some result ∧
        ∀ failure, result = .error failure →
          ∀ breach : Breach, breach.message? ≠ some failure.message := by
  obtain ⟨result, read⟩ := Program.exists_ofTokens dialect tokens
  cases clean : tokens.find? (·.kind == .error) with
  | some bad =>
    have refused : Program.ofTokens dialect tokens =
        some (.error (.syntaxFault (.invalidToken bad.text) (some bad) bad.pos)) := by
      rw [Program.ofTokens, Reading.ofTokens, clean]
    refine ⟨by rw [reading, Reading.ofTokens, clean], _, refused, ?_⟩
    rintro _ ⟨⟩
    have other : Complaint.invalidToken bad.text ≠ .invalidCharacter := by simp
    exact ordinary_of_complaint other _ _
  | none =>
    have agrees := program_agrees dialect fits clean
    refine ⟨?_, result, read, ?_⟩
    · rw [reading, Reading.ofTokens, clean]
      dsimp only
      rw [reading_of_agrees agrees]
      rfl
    · rintro failure rfl
      rw [Program.ofTokens, Reading.ofTokens, clean] at read
      exact ordinary_of_agrees agrees read

/-- A function that counts its arguments, reads a field that it names in parentheses and transposes
it is read without a breach on a machine of 64 bits. -/
theorem reading_eq_ofTokens_field :
    let tokens : List Token := [⟨.functionKeyword, "function", ⟨1, 0⟩⟩, ⟨.ident, "f", ⟨1, 9⟩⟩,
      ⟨.newline, "\n", ⟨1, 10⟩⟩, ⟨.ident, "a", ⟨2, 11⟩⟩, ⟨.dot, ".", ⟨2, 12⟩⟩,
      ⟨.leftParen, "(", ⟨2, 13⟩⟩, ⟨.ident, "nargin", ⟨2, 14⟩⟩, ⟨.rightParen, ")", ⟨2, 20⟩⟩,
      ⟨.transpose, "'", ⟨2, 21⟩⟩]
    Representable (2 ^ 64) tokens ∧
      reading 64 .strict tokens = .ok (Reading.ofTokens .strict tokens) ∧
      (Reading.ofTokens .strict tokens).events.getLast? = some (.finished 1) := by
  intro tokens
  have finished : (Reading.ofTokens .strict tokens).events.getLast? = some (.finished 1) := by
    decide +kernel +revert
  have fits : Representable (2 ^ 64) tokens := ⟨by decide, by decide, by decide +kernel⟩
  exact ⟨fits, (reading_eq_ofTokens 64 .strict tokens fits).1, finished⟩

end MatlabFront.Checked
