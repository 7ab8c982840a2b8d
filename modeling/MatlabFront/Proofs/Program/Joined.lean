import Mathlib.Data.List.TakeWhile
import MatlabFront.Proofs.Program.Complete
import MatlabFront.Proofs.Program.Copied
import MatlabFront.Proofs.Program.Extended

/-!
# Programs behind each other

A program without functions can stand in front of another one, with a newline between them. Its
statements are read in front of the newline as they are read at the end of the input, and they leave
nothing behind: no scope, and more steps than the second program takes. So this is read where it
stands as it is read alone, and it fails as it fails alone.
-/

namespace MatlabFront

open MatlabFront.Parser

variable {dialect : Dialect} {s s' final : State} {newline : Token} {second : List Token}

/-- Separators make no difference at the top of a program. -/
theorem Parser.topLevel_of_separators {run : List Token} (steps : Nat) (dialect : Dialect)
    (separators : ∀ token ∈ run, token.kind.isSeparator = true) (rest : s.rest = run ++ second) :
    ∃ behind : State, behind.rest = second ∧ behind.scope = s.scope ∧
      topLevel steps dialect s = topLevel steps dialect behind := by
  refine ⟨⟨run.reverse ++ s.consumed, second, s.scope, s.events⟩, rfl, rfl, ?_⟩
  cases steps with
  | zero => rfl
  | succ steps =>
    have skipped : s.skipSeparators = State.skipSeparators
        ⟨run.reverse ++ s.consumed, second, s.scope, s.events⟩ := by
      simp only [State.skipSeparators, State.skip, rest, List.takeWhile_append_of_pos separators,
        List.dropWhile_append_of_pos separators, List.reverse_append, List.append_assoc]
    rw [topLevel_succ, topLevel_succ, skipped]

namespace Surface

/-- Where no function is in the tree, only statements are written. -/
theorem statements_of_plain {items : List Item}
    (plain : ∀ function, Stmt.function function ∉ items.flatMap Item.lower) :
    ∀ item ∈ items, ∃ written, item = .statement written := by
  intro item inside
  cases item with
  | statement written => exact ⟨written, rfl⟩
  | function head body =>
    have among : Stmt.function (.mk head (closed head (lowerAll head.outputs body))) ∈
        items.flatMap Item.lower := List.mem_flatMap.mpr ⟨_, inside, List.mem_singleton_self _⟩
    exact absurd among (plain _)

/-- Statements at the top of a program are read in front of a newline, and then whatever is behind
it is read at the top. -/
theorem topLevel_extended (separates : newline.kind = .newline) {items : List Item} {count : Nat}
    (reads : Reads dialect (.items items) s final)
    (statements : ∀ item ∈ items, ∃ written, item = .statement written)
    (outside : s'.scope = none) (extended : s.Extends (newline :: second) s')
    (enough : 8 * s'.rest.length + 4 ≤ count) :
    ∃ more behind, Parser.steps second ≤ more ∧ behind.rest = second ∧ behind.scope = none ∧
      Parser.topLevel count dialect s' = (Parser.topLevel more dialect behind).bind fun later =>
        pure (items.flatMap Item.lower ++ later) := by
  induction items generalizing s s' count with
  | nil =>
    cases reads with
    | noItems known =>
      -- What is left of the first program are separators, and the newline is skipped with them.
      have separators : ∀ token ∈ s.rest ++ [newline], token.kind.isSeparator = true := by
        have ended : s.rest.dropWhile (·.kind.isSeparator) = [] := List.head?_eq_none_iff.mp known
        intro token inside
        obtain inside | rfl : token ∈ s.rest ∨ token = newline := by simpa using inside
        · exact List.dropWhile_eq_nil_iff.mp ended token inside
        · rw [separates]
          rfl
      have rest : s'.rest = (s.rest ++ [newline]) ++ second := by
        rw [extended, List.append_assoc, List.singleton_append]
      have length : s'.rest.length = s.rest.length + 1 + second.length := by
        rw [rest, List.length_append, List.length_append, List.length_singleton]
      obtain ⟨behind, left, scope, same⟩ :=
        Parser.topLevel_of_separators count dialect separators rest
      refine ⟨count, behind, ?_, left, scope.trans outside, ?_⟩
      · rw [Parser.steps]
        omega
      · rw [same]
        cases Parser.topLevel count dialect behind <;> rfl
  | cons item items ih =>
    obtain ⟨⟨written, rfl⟩, others⟩ := List.forall_mem_cons.mp statements
    cases reads with
    | item known plain head tail =>
      have skipped : s.skipSeparators.Extends (newline :: second) s'.skipSeparators :=
        extended.skip (State.rest_ne_nil known)
      obtain ⟨s₁', head', between⟩ := head.extended separates _ skipped trivial
      have outputs : s'.outputs = [] := by simp [State.outputs, outside]
      have shrinks := head'.length_le
      have shorter := s'.length_skipSeparators
      simp only [Part.least] at shrinks
      obtain ⟨count, rfl⟩ : ∃ fewer, count = fewer + 1 := ⟨count - 1, by omega⟩
      have fits : (Part.statement written).Fits s'.skipSeparators s₁' count := by
        simp only [Part.Fits, Part.level]
        omega
      have left : 8 * s₁'.rest.length + 4 ≤ count := by omega
      have outside₁ := scope_of_outside outside head'.noted
      obtain ⟨more, behind, steps, rest, after, later⟩ := ih tail others outside₁ between left
      refine ⟨more, behind, steps, rest, after, ?_⟩
      rw [topLevel_of_statement (skipped.peekKind known) plain (head'.accepted fits), later,
        Outcome.bind_bind, outputs]
      cases Parser.topLevel more dialect behind with
      | done => exact congrArg (Outcome.done · _) (List.append_assoc ..).symm
      | failed | exhausted => rfl

end Surface

/-- The positions of a failure stay where they are when the same token is the last one. -/
theorem Failure.Within.relocate {tokens : List Token} {failure : Failure}
    (within : failure.Within tokens) : failure.relocate id (.behind tokens) = failure := by
  match failure, within with
  | .syntaxFault _ (some _) _, _ => rfl
  | .syntaxFault _ none _, here => rw [Failure.relocate, here]
  | .invalidTarget _ _, _ => rfl

/-- The end of an input is behind its last token, whatever stands in front of it. -/
theorem Position.behind_append {front tokens : List Token} (left : tokens ≠ []) :
    Position.behind (front ++ tokens) = .behind tokens := by
  obtain ⟨last, known⟩ := Option.isSome_iff_exists.mp (List.getLast?_isSome.mpr left)
  rw [behind, behind, List.getLast?_append, known]
  rfl

/-- The top of a program is read behind other tokens as it is read alone, unless it is empty and
fails. -/
theorem Parser.topLevel_behind {result : Except Failure (List Stmt)} {more : Nat}
    (known : (topLevel (steps s.rest) dialect (.start s.rest)).result = some result)
    (outside : s.scope = none) (enough : steps s.rest ≤ more)
    (nonempty : ∀ failure, result = .error failure → s.rest ≠ []) :
    (topLevel more dialect s).result = some result := by
  have same : (Copy.mk s.rest id s.consumed).Faithful := fun _ _ _ _ _ _ => rfl
  have carries : (Copy.mk s.rest id s.consumed).Carries (.start s.rest) s :=
    ⟨rfl, (List.map_id _).symm, rfl, outside⟩
  have follows := @Copy.topLevel_follows _ False dialect _ _ _ _ same (fun _ => rfl) enough
    False.elim carries
  rw [follows.result known]
  cases result with
  | ok body =>
    have unmoved : Stmt.relocate id = id := funext Stmt.relocate_id
    simp only [relocateResult, unmoved, List.map_id]
  | error failure =>
    have within := follows.within known
    have whole : (Copy.mk s.rest id s.consumed).whole = s.consumed.reverse ++ s.rest := by
      rw [Copy.whole]
      exact congrArg _ (List.map_id _)
    rw [relocateResult, whole, Position.behind_append (nonempty failure rfl), within.relocate]

/-- In front of a program, with a newline between them, a program without functions adds its
statements to those of the other. If the other is refused and not empty, both together are refused
for the same reason at the same place. -/
theorem Program.ofTokens_joined {first : List Token} {program : Program}
    (separates : newline.kind = .newline)
    (accepted : Program.ofTokens dialect first = some (.ok program))
    (plain : ∀ function, Stmt.function function ∉ program.body) :
    (∀ later, Program.ofTokens dialect second = some (.ok later) →
      Program.ofTokens dialect (first ++ newline :: second) =
        some (.ok ⟨program.body ++ later.body⟩)) ∧
    ∀ failure, second ≠ [] → Program.ofTokens dialect second = some (.error failure) →
      Program.ofTokens dialect (first ++ newline :: second) = some (.error failure) := by
  obtain ⟨items, final, reads, -, tree⟩ := Surface.program_sound accepted
  have clean := Surface.sound_of_accepted accepted
  have statements := Surface.statements_of_plain (tree ▸ plain)
  have errors : (first ++ newline :: second).find? (·.kind == .error) =
      second.find? (·.kind == .error) := by
    simp [List.find?_append, clean, separates]
  have extended : (State.start first).Extends (newline :: second)
      (.start (first ++ newline :: second)) := rfl
  have enough : 8 * (first ++ newline :: second).length + 4 ≤
      steps (first ++ newline :: second) := by
    rw [steps]
    omega
  obtain ⟨more, behind, left, rfl, outside, run⟩ :=
    Surface.topLevel_extended separates reads statements rfl extended enough
  have joined {result : Except Failure Program}
      (known : Program.ofTokens dialect behind.rest = some result)
      (nonempty : ∀ failure, result = .error failure → behind.rest ≠ []) :
      Program.ofTokens dialect (first ++ newline :: behind.rest) =
        some (result.map fun later => ⟨program.body ++ later.body⟩) := by
    cases found : behind.rest.find? (·.kind == .error) with
    | some bad =>
      rw [ofTokens_of_error found] at known
      obtain rfl := Option.some.inj known
      exact ofTokens_of_error (errors.trans found)
    | none =>
      rw [ofTokens_of_clean found, Option.map_eq_some_iff] at known
      obtain ⟨outcome, known, rfl⟩ := known
      have read := topLevel_behind known outside left fun failure same =>
        nonempty failure (by rw [same]; rfl)
      rw [ofTokens_of_clean (errors.trans found), run, Outcome.result_bind_pure, read, tree]
      cases outcome <;> rfl
  constructor
  · intro later known
    exact joined known fun _ refused => absurd refused (by simp)
  · intro failure nonempty known
    exact joined known fun _ _ => nonempty

/-- The words of a command end at the newline in front of the next statement, and an expression that
is missing there is missed at its own place. -/
theorem Program.ofTokens_joined_command :
    Program.ofTokens .matlab [⟨.ident, "hold", ⟨1, 0⟩⟩, ⟨.ident, "on", ⟨1, 5⟩⟩,
        ⟨.newline, "\n", ⟨1, 7⟩⟩, ⟨.ident, "x", ⟨2, 0⟩⟩] =
      some (.ok ⟨[.call (.mk (.ident ⟨"hold", ⟨1, 0⟩⟩) [.string "on" ⟨1, 5⟩] none ⟨1, 0⟩),
        .eval (.ident ⟨"x", ⟨2, 0⟩⟩) ⟨2, 0⟩]⟩) ∧
    Program.ofTokens .matlab [⟨.ident, "hold", ⟨1, 0⟩⟩, ⟨.ident, "on", ⟨1, 5⟩⟩,
        ⟨.newline, "\n", ⟨1, 7⟩⟩, ⟨.ident, "x", ⟨2, 0⟩⟩, ⟨.assign, "=", ⟨2, 2⟩⟩] =
      some (.error (.syntaxFault .missingExpression none ⟨2, 3⟩)) := by
  have accepted : Program.ofTokens .matlab
      [⟨.ident, "hold", ⟨1, 0⟩⟩, ⟨.ident, "on", ⟨1, 5⟩⟩] =
        some (.ok ⟨[.call (.mk (.ident ⟨"hold", ⟨1, 0⟩⟩) [.string "on" ⟨1, 5⟩] none ⟨1, 0⟩)]⟩) := by
    cbv
  have separates : (Token.mk .newline "\n" ⟨1, 7⟩).kind = .newline := rfl
  constructor
  · exact (Program.ofTokens_joined separates accepted (by simp)).1
      ⟨[.eval (.ident ⟨"x", ⟨2, 0⟩⟩) ⟨2, 0⟩]⟩ (by cbv)
  · exact (Program.ofTokens_joined separates accepted (by simp)).2
      (.syntaxFault .missingExpression none ⟨2, 3⟩) (List.cons_ne_nil _ _) (by cbv)

end MatlabFront
