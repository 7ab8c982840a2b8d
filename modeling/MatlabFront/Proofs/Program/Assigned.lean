import MatlabFront.Proofs.Expression.Context
import MatlabFront.Proofs.Expression.Written
import MatlabFront.Proofs.Program.Complete

/-!
# Written trees are assigned

A tree that is written behind a name and an equals sign makes a program of one assignment, whose
value is the tree. With the theorem on what an accepted expression takes, this makes the spelling of
trees and their reading inverse to each other.
-/

namespace MatlabFront

open Spelling

variable {dialect : Dialect} {s : State} {name sign : Token} {run : List Token} {expr : Expr}
  {steps : Nat}

/-- A tree that is written behind a name and an equals sign is read to the end of the input. -/
theorem assignment_read (shaped : expr.Shaped false) (grouped : expr.WellGrouped)
    (fills : Layout.plain.Fills expr.spelling run) (tight : Tight run) (word : name.kind = .ident)
    (assigned : sign.kind = .assign) (known : s.rest = name :: sign :: run) :
    ∃ value s₁ final, value.unplaced = expr.unplaced ∧
      Grammar.Reads (.expression .outside 0 (.ident (Parser.declared name))) s s₁ ∧
      s₁.peek = some sign ∧ Grammar.Reads (.expression .outside 0 value) s₁.next final ∧
      s₁.next.Advances run final ∧ final.rest = [] := by
  obtain ⟨here, next⟩ := State.peek_of_rest known
  have noted : (s.next.note name.text).rest = sign :: run := by simpa using next
  obtain ⟨there, behind⟩ := State.peek_of_rest noted
  have operatorless : Operatorless (s.next.note name.text).rest := by
    rw [noted]
    exact operatorless_cons (by rw [assigned]; rfl)
  have left : Grammar.Reads (.expression .outside 0 (.ident (Parser.declared name))) s
      (s.next.note name.text) :=
    .expression (.ident here word) (.stop (operatorless.weaker 0).stops)
  have ended : (s.next.note name.text).next.rest = run ++ [] := by rw [behind, List.append_nil]
  rw [← behind] at tight
  obtain ⟨value, final, same, advances, reads⟩ :=
    (@Expr.Shaped.readable .outside false expr shaped grouped fun _ => rfl).inside fills ended tight
      (by rintro _ ⟨⟩)
  exact ⟨value, _, final, same, left, there, reads, advances, advances.rest_eq ended⟩

/-- An assignment of a value to a name is a statement in both dialects. -/
theorem assignment_accepted {value : Expr} {s₁ final : State} (word : name.kind = .ident)
    (assigned : sign.kind = .assign) (known : s.rest = name :: sign :: run)
    (left : Parser.wholeExpression steps s = .done (.ident (Parser.declared name)) s₁)
    (here : s₁.peek = some sign)
    (right : Parser.wholeExpression steps s₁.next = .done value final) :
    Parser.openStatement (steps + 1) dialect s =
      .done [.assign (.var (Parser.declared name)) value sign.pos] final := by
  obtain ⟨first, -⟩ := State.peek_of_rest known
  have noCommand : Command.begins s.rest = false := by
    simp [known, Command.begins, Command.words, assigned, Kind.startsWord]
  have whole : Parser.assignmentOrExpression steps s =
      .done (.assign (.var (Parser.declared name)) value sign.pos) final := by
    rw [Parser.assignmentOrExpression_apply]
    refine Outcome.bind_eq_done.mpr ⟨_, _, left, ?_⟩
    simp only [here, assigned, ↓reduceIte, right, Outcome.bind_done]
    rfl
  have plain : Surface.startsPlain s.peekKind = true := by
    rw [State.peekKind_of_peek first, word]
    rfl
  have statement : Parser.plainStatement steps dialect s =
      .done (.assign (.var (Parser.declared name)) value sign.pos) final := by
    rw [Parser.plainStatement_apply, noCommand]
    cases dialect <;> exact whole
  rw [Parser.openStatement_of_plain plain, statement]
  rfl

/-- One statement up to the end of the input is a program. -/
theorem topLevel_single {first : Token} {statements : List Stmt} {final : State}
    (here : s.skipSeparators.peek = some first) (plain : first.kind.isBlockKeyword = false)
    (read : Parser.openStatement (steps + 1) dialect s.skipSeparators = .done statements final)
    (ended : final.rest = []) :
    Parser.topLevel (steps + 3) dialect s = .done statements final.skipSeparators := by
  have peek : final.peek = none := List.head?_eq_none_iff.mpr ended
  have skipped : final.skipSeparators.peek = none := by
    simp [State.skipSeparators, State.skip, State.peek, ended]
  have noFunction : first.kind ≠ .functionKeyword := by
    intro same
    rw [same] at plain
    cases plain
  have statement : Parser.statement (steps + 2) dialect s.skipSeparators =
      .done statements final := by
    rw [Parser.statement_succ]
    refine Outcome.bind_eq_done.mpr ⟨_, _, read, if_pos ?_⟩
    simp [State.atTerminator, State.peekKind_of_end peek]
  have rest : Parser.topLevel (steps + 2) dialect final = .done [] final.skipSeparators := by
    simp only [Parser.topLevel_succ, skipped]
  simp only [Parser.topLevel_succ, here, noFunction, plain, Bool.false_eq_true, ↓reduceIte]
  refine Outcome.bind_eq_done.mpr ⟨_, _, statement, ?_⟩
  refine Outcome.bind_eq_done.mpr ⟨_, _, rest, ?_⟩
  rw [List.append_nil]
  rfl

/-- A tree that is shaped and grouped and written without gaps behind a name and an equals sign is,
apart from positions, what the program assigns to the name. -/
theorem Program.ofTokens_of_spelling (shaped : expr.Shaped false) (grouped : expr.WellGrouped)
    (fills : Layout.plain.Fills expr.spelling run) (tight : Tight run) (word : name.kind = .ident)
    (assigned : sign.kind = .assign) :
    ∃ value, value.unplaced = expr.unplaced ∧
      Program.ofTokens dialect (name :: sign :: run) =
        some (.ok ⟨[.assign (.var (Parser.declared name)) value sign.pos]⟩) := by
  have known : (State.start (name :: sign :: run)).skipSeparators.rest = name :: sign :: run := by
    simp [State.skipSeparators, State.skip, State.start, word, Kind.isSeparator]
  obtain ⟨value, s₁, final, same, left, there, reads, advances, ended⟩ :=
    assignment_read shaped grouped fills tight word assigned known
  refine ⟨value, same, ?_⟩
  have clean : (name :: sign :: run).find? (·.kind == .error) = none := by
    obtain ⟨taken, moves, clean, -⟩ := reads.portable trivial
    obtain rfl := moves.unique advances
    refine List.find?_eq_none.mpr fun token inside => ?_
    simp only [List.mem_cons] at inside
    obtain rfl | rfl | inside := inside
    · simp [word]
    · simp [assigned]
    · simpa using clean token inside
  have total := advances.length
  rw [ended, List.length_nil] at total
  obtain ⟨first, -⟩ := @Surface.wholeExpression_accepted _ _ (8 * run.length + 21) _ left
    (by simp only [known, List.length_cons]; omega)
  obtain ⟨second, -⟩ := @Surface.wholeExpression_accepted _ _ (8 * run.length + 21) _ reads
    (by omega)
  obtain ⟨here, -⟩ := State.peek_of_rest known
  have top : Parser.topLevel (8 * run.length + 24) dialect (.start (name :: sign :: run)) =
      .done [.assign (.var (Parser.declared name)) value sign.pos] final.skipSeparators :=
    topLevel_single here (by rw [word]; rfl)
      (assignment_accepted word assigned known first there second) ended
  have program : Parser.program dialect (.start (name :: sign :: run)) =
      .done ⟨[.assign (.var (Parser.declared name)) value sign.pos]⟩ final.skipSeparators := by
    rw [Parser.program]
    exact Outcome.bind_eq_done.mpr ⟨_, _, top, rfl⟩
  simp only [Program.ofTokens, Reading.ofTokens, clean, program, Reading.ofOutcome]

/-- In `x = 2:-a^b'` the minus takes the transposed power, and the range takes all of it. -/
theorem Program.ofTokens_of_negated_power :
    ∃ value,
      value.unplaced = (Expr.range (.number "2" ⟨1, 4⟩) none
        (.unary .minus (.transpose (.binary (.ident ⟨"a", ⟨1, 7⟩⟩) .pow (.ident ⟨"b", ⟨1, 9⟩⟩)
          ⟨1, 8⟩) "'" ⟨1, 10⟩) ⟨1, 6⟩) ⟨1, 5⟩).unplaced ∧
      Program.ofTokens .matlab [⟨.ident, "x", ⟨1, 0⟩⟩, ⟨.assign, "=", ⟨1, 2⟩⟩,
          ⟨.number, "2", ⟨1, 4⟩⟩, ⟨.colon, ":", ⟨1, 5⟩⟩, ⟨.minus, "-", ⟨1, 6⟩⟩, ⟨.ident, "a", ⟨1, 7⟩⟩,
          ⟨.caret, "^", ⟨1, 8⟩⟩, ⟨.ident, "b", ⟨1, 9⟩⟩, ⟨.transpose, "'", ⟨1, 10⟩⟩] =
        some (.ok ⟨[.assign (.var ⟨"x", ⟨1, 0⟩⟩) value ⟨1, 2⟩]⟩) := by
  have atom (expr : Expr) (parts : expr.parts = []) (grouped : expr.Grouped) : expr.WellGrouped :=
    .node grouped (by simp [parts])
  have power : (Expr.binary (.ident ⟨"a", ⟨1, 7⟩⟩) .pow (.ident ⟨"b", ⟨1, 9⟩⟩)
      ⟨1, 8⟩).WellGrouped := by
    refine .node ⟨by decide, by decide⟩ ?_
    simp only [Expr.parts, List.forall_mem_cons]
    exact ⟨atom _ rfl trivial, atom _ rfl trivial, by simp⟩
  have transposed : (Expr.transpose _ "'" ⟨1, 10⟩).WellGrouped :=
    .node (show Expr.StandsBefore _ _ by decide) (List.forall_mem_singleton.mpr power)
  have negated : (Expr.unary .minus _ ⟨1, 6⟩).WellGrouped :=
    .node (show Expr.StandsBehind _ _ by decide) (List.forall_mem_singleton.mpr transposed)
  have marks : Layout.plain.Fills [.marks "'"] [⟨.transpose, "'", ⟨1, 10⟩⟩] :=
    @Layout.Fills.marks _ _ [⟨.transpose, "'", ⟨1, 10⟩⟩] _ (by simp) (by simp [Kind.isMark]) .nil
  refine Program.ofTokens_of_spelling ?shaped ?grouped ?fills ?tight rfl rfl
  case shaped =>
    exact .shortRange .number
      (.unary (.transpose (.binary (.ident (by decide)) (.ident (by decide))) rfl))
  case grouped =>
    refine .node ⟨by decide, rfl, by simp, by decide, rfl⟩ ?_
    simp only [Expr.parts, Option.toList_none, List.cons_append, List.nil_append,
      List.forall_mem_cons]
    exact ⟨atom _ rfl trivial, negated, by simp⟩
  case fills =>
    exact .token ⟨rfl, rfl⟩ (.kind rfl (.kind rfl
      (.token (.inl ⟨rfl, rfl⟩) (.kind rfl (.token (.inl ⟨rfl, rfl⟩) marks)))))
  case tight =>
    simp only [Tight, Token.adjacentTo, Token.stop, List.isChain_cons_cons, List.isChain_singleton,
      and_true, beq_iff_eq]
    decide

end MatlabFront
