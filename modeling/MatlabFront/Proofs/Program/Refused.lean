import MatlabFront.Proofs.Program.Progress

/-!
# Programs that are refused

A failure is met at a state of the parse. What it reports is the token that is next there, or the
end of the input, and in the strict dialect it is final: no tokens behind the second one after it
would have changed it.
-/

namespace MatlabFront

open MatlabFront.Parser

namespace Parser

namespace Steady

variable {bounded : Prop} {α : Type} {parser other : Parser α} {s s' : State}

/-- A value that is read far enough in front of an index is read from other tokens. -/
theorem done_of_agrees (steady : Steady bounded parser other) (holds : bounded) {index : Nat}
    {value : α} {final : State} (run : parser s = .done value final) (agrees : s.Agrees index s')
    (room : final.cursor + 3 ≤ index) : ∃ final', other s' = .done value final' := by
  have decided := steady.decided holds agrees
  rw [run] at decided
  obtain ⟨final', known, -⟩ := decided room
  exact ⟨final', known⟩

/-- A failure that is met far enough in front of an index is met in other tokens. -/
theorem failed_of_agrees (steady : Steady bounded parser other) (holds : bounded) {index : Nat}
    {failure : Failure} {met : State} (run : parser s = .failed failure met)
    (agrees : s.Agrees index s') (room : met.cursor + 3 ≤ index) :
    ∃ met', other s' = .failed failure met' := by
  have decided := steady.decided holds agrees
  rw [run] at decided
  obtain ⟨met', known, -⟩ := decided room
  exact ⟨met', known⟩

/-- With more steps than are enough the result is the same. -/
theorem result_eq (steady : Steady bounded parser other) (holds : bounded)
    (ended : parser s ≠ .exhausted) : (other s).result = (parser s).result := by
  cases run : parser s with
  | exhausted => exact absurd run ended
  | done value final =>
    obtain ⟨final', known⟩ := steady.done_of_agrees holds run (.refl _ s) (Nat.le_refl _)
    rw [known]
    rfl
  | failed failure met =>
    obtain ⟨met', known⟩ := steady.failed_of_agrees holds run (.refl _ s) (Nat.le_refl _)
    rw [known]
    rfl

end Steady

/-- A parse of other tokens can be started where the tokens agree. -/
theorem agrees_start {index : Nat} {tokens other : List Token}
    (same : other.take index = tokens.take index) :
    (State.start tokens).Agrees index (.start other) := ⟨rfl, rfl, same⟩

end Parser

variable {dialect : Dialect} {tokens : List Token} {failure : Failure}

/-- A program fails where the parse of its top fails. -/
theorem Parser.program_eq_failed {met : State} :
    program dialect (.start tokens) = .failed failure met ↔
      topLevel (steps tokens) dialect (.start tokens) = .failed failure met := by
  change (topLevel (steps tokens) dialect (.start tokens)).bind _ = _ ↔ _
  cases topLevel (steps tokens) dialect (.start tokens) <;> simp

/-- A failure that is no token that is an error is met at a state of the parse. -/
theorem Program.met_of_refused (clean : tokens.find? (·.kind == .error) = none)
    (refused : Program.ofTokens dialect tokens = some (.error failure)) :
    ∃ met, Parser.program dialect (.start tokens) = .failed failure met ∧
      (State.start tokens).Reaches met ∧ failure.MetAt met := by
  rw [ofTokens_of_clean clean] at refused
  have routine : Routine dialect (steps tokens) (topLevel (steps tokens) dialect) := .topLevel
  have onward := routine.onward (.start tokens)
  cases run : topLevel (steps tokens) dialect (.start tokens) with
  | done | exhausted => simp [run, Outcome.result, Except.map] at refused
  | failed found met =>
    obtain rfl : found = failure := by simpa [run, Outcome.result, Except.map] using refused
    rw [run] at onward
    cases onward with
    | failed reaches here => exact ⟨met, program_eq_failed.mpr run, reaches, here⟩

/-- In the strict dialect a failure is decided by the tokens up to the second one behind the token
that is found: whatever follows them, the same failure is met. -/
theorem Program.refused_of_take (clean : tokens.find? (·.kind == .error) = none)
    (refused : Program.ofTokens .strict tokens = some (.error failure)) :
    ∃ met, Parser.program .strict (.start tokens) = .failed failure met ∧ failure.MetAt met ∧
      met.consumed.reverse ++ met.rest = tokens ∧
      ∀ other : List Token, other.find? (·.kind == .error) = none →
        other.take (met.cursor + 3) = tokens.take (met.cursor + 3) →
          Program.ofTokens .strict other = some (.error failure) := by
  obtain ⟨met, run, reaches, here⟩ := met_of_refused clean refused
  refine ⟨met, run, here, reaches.whole, fun other clean' same => ?_⟩
  -- Enough steps for both inputs, so that the failure can be carried from one to the other.
  obtain ⟨more, enough, enough'⟩ : ∃ more, steps tokens ≤ more ∧ steps other ≤ more :=
    ⟨_, Nat.le_max_left _ _, Nat.le_max_right _ _⟩
  obtain ⟨met', moved⟩ : ∃ met', topLevel more .strict (.start other) = .failed failure met' := by
    have steady : StrictSteady .strict (topLevel (steps tokens) .strict) (topLevel more .strict) :=
      topLevel_steady enough
    exact steady.failed_of_agrees rfl (program_eq_failed.mp run) (agrees_start same)
      (Nat.le_refl _)
  have result : (topLevel more .strict (.start other)).result =
      (topLevel (steps other) .strict (.start other)).result := by
    have steady : StrictSteady .strict (topLevel (steps other) .strict) (topLevel more .strict) :=
      topLevel_steady enough'
    exact steady.result_eq rfl (Routine.topLevel.ne_exhausted (Nat.le_refl _))
  rw [ofTokens_of_clean clean', ← result, moved]
  rfl

/-- The tokens `x = ) y z` are refused at the parenthesis, and so are all that begin with them. -/
theorem Program.refused_of_take_paren :
    Program.ofTokens .strict
      [⟨.ident, "x", ⟨1, 0⟩⟩, ⟨.assign, "=", ⟨1, 2⟩⟩, ⟨.rightParen, ")", ⟨1, 4⟩⟩,
        ⟨.ident, "y", ⟨1, 6⟩⟩, ⟨.ident, "z", ⟨1, 8⟩⟩, ⟨.leftBracket, "[", ⟨1, 9⟩⟩] =
      some (.error (.syntaxFault .notAnExpression (some ⟨.rightParen, ")", ⟨1, 4⟩⟩) ⟨1, 4⟩)) := by
  have refused : Program.ofTokens .strict
      [⟨.ident, "x", ⟨1, 0⟩⟩, ⟨.assign, "=", ⟨1, 2⟩⟩, ⟨.rightParen, ")", ⟨1, 4⟩⟩,
        ⟨.ident, "y", ⟨1, 6⟩⟩, ⟨.ident, "z", ⟨1, 8⟩⟩] =
      some (.error (.syntaxFault .notAnExpression (some ⟨.rightParen, ")", ⟨1, 4⟩⟩) ⟨1, 4⟩)) := by
    cbv
  obtain ⟨met, run, -, -, decided⟩ := Program.refused_of_take (by decide) refused
  have met_eq : Parser.program .strict (.start
      [⟨.ident, "x", ⟨1, 0⟩⟩, ⟨.assign, "=", ⟨1, 2⟩⟩, ⟨.rightParen, ")", ⟨1, 4⟩⟩,
        ⟨.ident, "y", ⟨1, 6⟩⟩, ⟨.ident, "z", ⟨1, 8⟩⟩]) =
      .failed (.syntaxFault .notAnExpression (some ⟨.rightParen, ")", ⟨1, 4⟩⟩) ⟨1, 4⟩)
        ⟨[⟨.assign, "=", ⟨1, 2⟩⟩, ⟨.ident, "x", ⟨1, 0⟩⟩], [⟨.rightParen, ")", ⟨1, 4⟩⟩,
          ⟨.ident, "y", ⟨1, 6⟩⟩, ⟨.ident, "z", ⟨1, 8⟩⟩], none, []⟩ := by cbv
  obtain ⟨-, rfl⟩ := Outcome.failed.inj (run.symm.trans met_eq)
  exact decided _ (by decide) rfl

/-- What is refused is refused at a token of the input or at its end. The first token that is an
error is reported before anything else. Where no token is found, all of them have been read. -/
theorem Program.points_of_refused
    (refused : Program.ofTokens dialect tokens = some (.error failure)) :
    (∀ bad, tokens.find? (·.kind == .error) = some bad →
      failure = .syntaxFault (.invalidToken bad.text) (some bad) bad.pos) ∧
    (tokens.find? (·.kind == .error) = none →
      ∃ met, Parser.program dialect (.start tokens) = .failed failure met ∧
        (State.start tokens).Reaches met ∧
        match failure with
        | .syntaxFault _ (some token) pos =>
          met.peek = some token ∧ token ∈ tokens ∧ pos = token.pos
        | .syntaxFault _ none pos =>
          met.rest = [] ∧ met.consumed.reverse = tokens ∧ pos = .behind tokens
        | .invalidTarget _ pos => ∃ token ∈ tokens, pos = token.pos) ∧
    ∀ program, Program.ofTokens dialect tokens ≠ some (.ok program) := by
  refine ⟨fun bad found => ?_, fun clean => ?_, fun program accepted => ?_⟩
  · rw [ofTokens_of_error found] at refused
    exact (Except.error.inj (Option.some.inj refused)).symm
  · obtain ⟨met, run, reaches, here⟩ := met_of_refused clean refused
    have within := within_of_refused refused
    refine ⟨met, run, reaches, ?_⟩
    match failure, here, within with
    | .syntaxFault _ (some token) pos, ⟨found, _⟩, within => exact ⟨found.symm, within⟩
    | .syntaxFault _ none pos, ⟨found, _⟩, within =>
      have ended : met.rest = [] := List.head?_eq_none_iff.mp found.symm
      have whole : met.consumed.reverse = tokens := by
        have kept := reaches.whole
        rwa [ended, List.append_nil] at kept
      exact ⟨ended, whole, within⟩
    | .invalidTarget _ pos, _, within => exact within
  · rw [refused] at accepted
    cases accepted

/-- The tokens `x =` end where a value is missing. -/
theorem Program.points_of_missing_value :
    ∃ met, Parser.program .matlab (.start [⟨.ident, "x", ⟨1, 0⟩⟩, ⟨.assign, "=", ⟨1, 2⟩⟩]) =
        .failed (.syntaxFault .missingExpression none ⟨1, 3⟩) met ∧
      met.rest = [] := by
  have refused : Program.ofTokens .matlab [⟨.ident, "x", ⟨1, 0⟩⟩, ⟨.assign, "=", ⟨1, 2⟩⟩] =
      some (.error (.syntaxFault .missingExpression none ⟨1, 3⟩)) := by cbv
  obtain ⟨-, points, -⟩ := Program.points_of_refused refused
  obtain ⟨met, run, -, ended, -⟩ := points (by decide)
  exact ⟨met, run, ended⟩

end MatlabFront
