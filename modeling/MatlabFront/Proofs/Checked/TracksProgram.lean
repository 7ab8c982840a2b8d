import MatlabFront.Proofs.Checked.TracksCommand
import MatlabFront.Proofs.Parser.Relocate
import MatlabFront.Proofs.Program.Lookahead

/-!
# Readers of programs track the parser

Each reader of statements tracks the function of the parser that it spells out, outside all brackets
and in any function; functions and programs are tracked outside all functions. A function that was
entered is there to be left, because its body leaves as many functions open as it found.
-/

namespace MatlabFront.Checked

section Looking

variable {c : Cursor} {s : State} (stands : Stands c s)
include stands

/-- Whether the header of a `for` is enclosed is what the parser proper finds. -/
theorem Stands.headerEnclosed_apply : headerEnclosed c = .done s.headerEnclosed c := by
  rw [headerEnclosed, bind_apply, stands.peekKind_apply, Verdict.bind_done, State.headerEnclosed]
  by_cases first : s.peekKind = some .leftParen
  · rw [if_pos first, first, beq_self_eq_true, Bool.true_and, bind_apply, stands.secondKind_apply,
      Verdict.bind_done]
    by_cases second : s.secondKind = some .ident
    · rw [if_pos second, second, beq_self_eq_true, Bool.true_and, bind_apply,
        stands.thirdKind_apply, Verdict.bind_done]
      by_cases third : s.thirdKind = some .assign <;> simp [third]
    · rw [if_neg second, beq_false_of_ne second, Bool.false_and]
      rfl
  · rw [if_neg first, beq_false_of_ne first, Bool.false_and, Bool.false_and]
    rfl

/-- Whether a single output comes next is what the parser proper finds. -/
theorem Stands.atOutput_apply :
    atOutput c = .done (decide (s.peekKind = some .ident ∧ s.secondKind = some .assign)) c := by
  rw [atOutput, bind_apply, stands.peekKind_apply, Verdict.bind_done]
  by_cases first : s.peekKind = some .ident
  · rw [if_pos first, bind_apply, stands.secondKind_apply, Verdict.bind_done]
    simp [first]
  · rw [if_neg first]
    simp [first]

/-- The outputs in scope are those of the innermost function. -/
theorem Stands.outputsInScope_apply : outputsInScope c = .done s.outputs c := by
  rw [outputsInScope, look_apply, State.outputs, stands.scope]
  cases c.scopes <;> rfl

/-- A name that comes next is declared and gone over. -/
theorem Stands.expectDeclared_apply {token : Token} (found : s.peek = some token)
    (named : token.kind = .ident) :
    expectDeclared c = .done (Parser.declared token) (c.ahead 1) := by
  simp only [expectDeclared, expect, expectOr, bind_apply, stands.peek_apply, found,
    Verdict.bind_done, named, ↓reduceIte, stands.step_apply, pure_apply]

end Looking

namespace Tracks

variable {depth : Depth} {known : State → Prop} {functions : Nat} {dialect : Dialect}

/-- The result of an assignment fails with a flaw, if at all. -/
theorem assigned (left value : Expr) (pos : Position) :
    Tracks depth known (ofExcept (Assignment.statement left value pos))
      (Parser.ofExcept (Assignment.statement left value pos)) := by
  cases made : Assignment.statement left value pos with
  | ok written => exact .pure written
  | error failure =>
    obtain ⟨flaw, start, rfl, -⟩ := Assignment.invalidTarget_of_statement made
    exact .reject flaw start

/-- Both see the same outputs in scope. -/
theorem outputsInScope : Tracks depth known Checked.outputsInScope Parser.outputsInScope :=
  fun c s deep stands _ => by
    rw [stands.outputsInScope_apply, Parser.outputsInScope_apply]
    exact .done deep stands

/-- Outside of all brackets both read the same expression. -/
theorem wholeExpression (steps : Nat) :
    Tracks ⟨[], functions⟩ known (expression steps 0) (Parser.wholeExpression steps) :=
  ((tracksExpressions steps).expression ⟨[], functions⟩ 0).anyway

/-- Both resynchronise in the lenient dialect and complain in the strict one. -/
theorem resynchronize (dialect : Dialect) :
    Tracks depth known (Checked.resynchronize dialect) (Parser.resynchronize dialect) := by
  cases dialect with
  | strict => exact .complain (by simp)
  | matlab =>
    refine .peek fun found => ?_
    cases found with
    | none => exact .pure ()
    | some token => exact .bind (.report _) fun _ => .skipWhile _

/-- Both read the same condition of an `if`. -/
theorem ifCondition (steps : Nat) (dialect : Dialect) :
    Tracks ⟨[], functions⟩ known (Checked.ifCondition steps dialect)
      (Parser.ifCondition steps dialect) := by
  refine (wholeExpression steps).bind fun condition => .atSeparator fun found => ?_
  split
  · exact .pure _
  · exact (resynchronize dialect).bind fun _ => .pure _

/-- Both read the same assignment or expression. -/
theorem assignmentOrExpression (steps : Nat) :
    Tracks ⟨[], functions⟩ known (Checked.assignmentOrExpression steps)
      (Parser.assignmentOrExpression steps) := by
  refine (wholeExpression steps).bind fun left => .peek fun found => ?_
  cases found with
  | none => exact .pure _
  | some token =>
    dsimp only
    split
    · exact .step (fun s holds => ⟨token, holds.2⟩) ((wholeExpression steps).bind fun value =>
        .assigned left value token.pos)
    · exact .pure _

/-- Only where a command was found ahead is one read. -/
theorem plainStatement (steps : Nat) (dialect : Dialect) :
    Tracks ⟨[], functions⟩ known (Checked.plainStatement steps dialect)
      (Parser.plainStatement steps dialect) := by
  cases dialect with
  | strict => exact assignmentOrExpression steps
  | matlab =>
    refine look (fun s => Command.comesNext s.rest) id
      (fun _ _ _ stands _ => stands.atCommand_apply) (fun _ => rfl) fun found => ?_
    cases found with
    | false => exact assignmentOrExpression steps
    | true =>
      intro c s deep stands holds
      obtain ⟨name, later, -, rest, kind, -⟩ := Command.ahead_of_comesNext holds.2
      have here : s.peek = some name := (State.peek_of_rest rest).1
      have read : Tracks ⟨[], functions⟩ (·.peek = some name) Checked.command Parser.command :=
        .command (fun s holds => holds) kind
      exact read c s deep stands here

/-- Both read the same names. -/
theorem namesFrom (steps : Nat) :
    Tracks depth known (Checked.namesFrom steps) (Parser.namesFrom steps) := by
  induction steps generalizing known with
  | zero => exact .exhausted
  | succ steps ih =>
    rw [Checked.namesFrom, Parser.namesFrom]
    refine .peekKind fun found => ?_
    split
    · exact .bind .expectUsed fun name => ih.bind fun _ => .pure _
    · exact .pure _

/-- Both read the same names of a `global`. -/
theorem globalNames (steps : Nat) :
    Tracks depth known (Checked.globalNames steps) (Parser.globalNames steps) :=
  .bind .expectUsed fun _ => (namesFrom steps).bind fun _ => .pure _

/-- A header in parentheses has a first one to be read. -/
theorem forHeader (steps : Nat) :
    Tracks ⟨[], functions⟩ known (Checked.forHeader steps) (Parser.forHeader steps) := by
  have closed (var : Ident) (range : Expr) : Tracks ⟨[], functions⟩ Anywhere
      (do Checked.expectSeparator .forHeader; return (var, range) : Reader (Ident × Expr))
      (do Parser.expectSeparator .forHeader; return (var, range)) :=
    .bind (.expectSeparator _) fun _ => .pure _
  have name : Tracks ⟨[], functions⟩ Anywhere Checked.expectUsed Parser.expectUsed := expectUsed
  intro c s deep stands _
  rw [Checked.forHeader, bind_apply, stands.headerEnclosed_apply, Verdict.bind_done,
    Parser.forHeader_apply]
  cases enclosed : s.headerEnclosed with
  | true =>
    obtain ⟨token, found, -⟩ := State.peek_of_peekKind (State.peekKind_of_headerEnclosed enclosed)
    simp only [↓reduceIte, bind_apply, stands.step_apply, Verdict.bind_done]
    refine (name (c.ahead 1) _ deep (stands.next found) trivial).bind fun var => ?_
    refine (Tracks.expect .assign).discard.bind fun _ => ?_
    exact (wholeExpression steps).bind fun range =>
      (Tracks.expect .rightParen).discard.bind fun _ => closed var range
  | false =>
    simp only [Bool.false_eq_true, ↓reduceIte]
    refine (name _ _ deep stands trivial).bind fun var => ?_
    refine (Tracks.expect .assign).discard.bind fun _ => ?_
    exact (wholeExpression steps).bind fun range => closed var range

end Tracks

/-- Each reader of statements tracks the function that it spells out, in any function. -/
structure TracksStatements (steps : Nat) (dialect : Dialect) : Prop where
  block (functions : Nat) (ends : Kind → Bool) : Tracks ⟨[], functions⟩ Anywhere
    (block steps dialect ends) (Parser.block steps dialect ends)
  statement (functions : Nat) : Tracks ⟨[], functions⟩ Anywhere
    (statement steps dialect) (Parser.statement steps dialect)
  openStatement (functions : Nat) : Tracks ⟨[], functions⟩ Anywhere
    (openStatement steps dialect) (Parser.openStatement steps dialect)
  elseBranch (functions : Nat) : Tracks ⟨[], functions⟩ Anywhere
    (elseBranch steps dialect) (Parser.elseBranch steps dialect)
  cases (functions : Nat) : Tracks ⟨[], functions⟩ Anywhere
    (cases steps dialect) (Parser.cases steps dialect)

section Steps

variable {steps : Nat} {dialect : Dialect} (tracks : TracksStatements steps dialect)
  (functions : Nat)
include tracks

/-- A block is read by both when its statements are with a step less. -/
theorem tracks_block (ends : Kind → Bool) : Tracks ⟨[], functions⟩ Anywhere
    (block (steps + 1) dialect ends) (Parser.block (steps + 1) dialect ends) := by
  rw [block, Parser.block]
  refine .bind (.skipWhile _) fun _ => .peekKind fun found => ?_
  cases found with
  | none => exact .pure _
  | some kind =>
    dsimp only
    split
    · exact .pure _
    split
    · exact .complain (by simp)
    split
    · exact .complain (by simp)
    · exact (tracks.statement functions).anyway.bind fun first =>
        (tracks.block functions ends).bind fun _ => .pure _

/-- A statement with what ends it is read by both when the statement is with a step less. -/
theorem tracks_statement : Tracks ⟨[], functions⟩ Anywhere
    (statement (steps + 1) dialect) (Parser.statement (steps + 1) dialect) := by
  rw [statement, Parser.statement]
  exact (tracks.openStatement functions).bind fun _ => .bind .expectTerminator fun _ => .pure _

/-- A statement is read by both when its blocks are with a step less. -/
theorem tracks_openStatement : Tracks ⟨[], functions⟩ Anywhere
    (openStatement (steps + 1) dialect) (Parser.openStatement (steps + 1) dialect) := by
  rw [openStatement, Parser.openStatement]
  refine .peekKind_of_peek fun found => ?_
  cases found with
  | none => exact (Tracks.plainStatement steps dialect).bind fun _ => .pure _
  | some token =>
    have here (s : State) (holds : True ∧ s.peek = some token) : s.peek = some token := holds.2
    dsimp only [Option.map_some]
    cases kind : token.kind with
    | ifKeyword =>
      refine .expected here kind ((Tracks.ifCondition steps dialect).bind fun condition => ?_)
      refine (tracks.block functions _).bind fun body => ?_
      exact (tracks.elseBranch functions).bind fun otherwise =>
        .bind (.expectEnd _) fun _ => .pure _
    | whileKeyword =>
      refine .expected here kind ((Tracks.wholeExpression steps).bind fun condition => ?_)
      refine .bind (.expectSeparator _) fun _ => (tracks.block functions _).bind fun body => ?_
      exact .bind (.expectEnd _) fun _ => .pure _
    | forKeyword =>
      refine .expected here kind ((Tracks.forHeader steps).bind fun head => ?_)
      exact (tracks.block functions _).bind fun body => .bind (.expectEnd _) fun _ => .pure _
    | switchKeyword =>
      refine .expected here kind ((Tracks.wholeExpression steps).bind fun subject => ?_)
      refine .bind (.expectSeparator _) fun _ => (tracks.cases functions).bind fun chain => ?_
      refine .bind (.expectEnd _) fun _ => ?_
      obtain ⟨_ | ⟨first, clauses⟩, otherwise⟩ := chain
      · exact .pure _
      · exact .bind (.report _) fun _ => .pure _
    | tryKeyword =>
      refine .expected here kind ((tracks.block functions _).anyway.bind fun body => ?_)
      refine .bind (.consume _) fun caught => ?_
      split
      · exact (tracks.block functions _).bind fun handler =>
          .bind (.expectEnd _) fun _ => .pure _
      · exact .bind (.pure []) fun handler => .bind (.expectEnd _) fun _ => .pure _
    | globalKeyword =>
      exact .expected here kind ((Tracks.globalNames steps).bind fun _ => .pure _)
    | breakKeyword | continueKeyword => exact .expected here kind (.pure _)
    | returnKeyword => exact .expected here kind (.bind .outputsInScope fun _ => .pure _)
    | _ => exact (Tracks.plainStatement steps dialect).bind fun _ => .pure _

/-- What follows the body of an `if` is read by both when its blocks are with a step less. -/
theorem tracks_elseBranch : Tracks ⟨[], functions⟩ Anywhere
    (elseBranch (steps + 1) dialect) (Parser.elseBranch (steps + 1) dialect) := by
  rw [elseBranch, Parser.elseBranch]
  refine .peek fun found => ?_
  cases found with
  | none => exact .pure _
  | some token =>
    have here (s : State) (holds : True ∧ s.peek = some token) : ∃ token, s.peek = some token :=
      ⟨token, holds.2⟩
    dsimp only
    cases token.kind with
    | elseIfKeyword =>
      refine .step here ((Tracks.wholeExpression steps).bind fun condition => ?_)
      refine .bind (.expectSeparator _) fun _ => (tracks.block functions _).bind fun body => ?_
      exact (tracks.elseBranch functions).bind fun _ => .pure _
    | elseKeyword => exact .step here ((tracks.block functions _).anyway.bind fun _ => .pure _)
    | _ => exact .pure _

/-- The cases of a switch are read by both when their bodies are with a step less. -/
theorem tracks_cases : Tracks ⟨[], functions⟩ Anywhere
    (cases (steps + 1) dialect) (Parser.cases (steps + 1) dialect) := by
  rw [cases, Parser.cases]
  refine .bind (.skipWhile _) fun _ => .peek fun found => ?_
  cases found with
  | none => exact .pure _
  | some token =>
    have here (s : State) (holds : True ∧ s.peek = some token) : ∃ token, s.peek = some token :=
      ⟨token, holds.2⟩
    dsimp only
    cases token.kind with
    | caseKeyword =>
      refine .step here ((Tracks.wholeExpression steps).bind fun value => ?_)
      refine .bind (.expectSeparator _) fun _ => (tracks.block functions _).bind fun body => ?_
      exact (tracks.cases functions).bind fun _ => .pure _
    | otherwiseKeyword => exact .step here ((tracks.block functions _).anyway.bind fun _ => .pure _)
    | _ => exact .pure _

end Steps

/-- The readers of statements track the parser, with every number of steps. -/
theorem tracksStatements (steps : Nat) (dialect : Dialect) : TracksStatements steps dialect := by
  induction steps with
  | zero =>
    exact {
      block := fun _ _ => .exhausted
      statement := fun _ => .exhausted
      openStatement := fun _ => .exhausted
      elseBranch := fun _ => .exhausted
      cases := fun _ => .exhausted }
  | succ steps tracks =>
    exact {
      block := tracks_block tracks
      statement := tracks_statement tracks
      openStatement := tracks_openStatement tracks
      elseBranch := tracks_elseBranch tracks
      cases := tracks_cases tracks }

namespace Tracks

variable {depth : Depth} {known : State → Prop} {dialect : Dialect}

/-- A function that was entered outside all others is there to be left, with what was noted. -/
theorem inFunction {brackets : List Bracket} {α β : Type} {reader : Reader α} {parser : Parser α}
    {next : α × FunctionScope → Reader β} {next' : α → Scope → Parser β} (outputs : List Ident)
    (inside : Tracks ⟨brackets, 1⟩ Anywhere reader parser)
    (tail : ∀ value scope, Tracks ⟨brackets, 0⟩ Anywhere (next (value, scope))
      (next' value scope.noted)) :
    Tracks ⟨brackets, 0⟩ known (Checked.inFunction outputs reader >>= next)
      (do
        Parser.enterScope outputs
        let value ← parser
        let scope ← Parser.leaveScope outputs
        next' value scope) := by
  intro c s deep stands _
  obtain ⟨rfl, none⟩ := Depth.mk.inj deep
  have entered : Stands { c with scopes := ⟨outputs, 0⟩ :: c.scopes }
      { s with scope := some ⟨outputs, false⟩ } := {
    stands with
    scope := rfl
    spare := by
      rintro _ ⟨⟩
      exact Nat.zero_le _ }
  have deeper : ({ c with scopes := ⟨outputs, 0⟩ :: c.scopes } : Cursor).depth =
      ⟨c.brackets, 1⟩ := by
    rw [Cursor.depth, List.length_cons, none]
  have agrees := inside _ _ deeper entered trivial
  simp only [bind_apply, Checked.inFunction, Parser.bind_apply, Parser.enterScope,
    Outcome.bind_done]
  generalize reader _ = verdict, parser _ = outcome at agrees ⊢
  cases agrees with
  | exhausted => exact .exhausted
  | failed deep events ordinary =>
    obtain ⟨brackets, one⟩ := Depth.mk.inj deep
    refine .failed ?_ events ordinary
    rw [Cursor.depth, List.length_tail, one, brackets]
  | @done value last final deep stands =>
    obtain ⟨brackets, one⟩ := Depth.mk.inj deep
    obtain ⟨scope, inner⟩ := List.length_eq_one_iff.mp one
    have noted : final.scope = some scope.noted := by rw [stands.scope, inner]; rfl
    have left : Stands { last with scopes := [] } { final with scope := Option.none } := {
      stands with
      scope := rfl
      spare := Cursor.spare_outside rfl 0 }
    simp only [inner, Verdict.bind_done, Outcome.bind_done, Parser.bind_apply,
      Parser.leaveScope, noted, Option.getD_some]
    exact tail value scope _ _ (congrArg (Depth.mk · 0) brackets) left trivial

/-- Both read the same outputs in brackets. -/
theorem bracketedOutputs (steps : Nat) :
    Tracks depth known (Checked.bracketedOutputs steps) (Parser.bracketedOutputs steps) := by
  induction steps generalizing known with
  | zero => exact .exhausted
  | succ steps ih =>
    rw [Checked.bracketedOutputs, Parser.bracketedOutputs]
    refine .bind (.consume _) fun _ => ?_
    split
    · exact .pure _
    refine .bind (.consume _) fun _ => ?_
    split
    · exact ih
    · exact .bind .expectDeclared fun name => ih.bind fun _ => .pure _

/-- Behind a single output stands an equals sign, which is moved over. -/
theorem singleOutput {token : Token} (here : ∀ s, known s → s.peek = some token)
    (named : token.kind = .ident) (behind : ∀ s, known s → s.secondKind = some .assign) :
    Tracks depth known
      (do
        let output ← Checked.expectDeclared
        Checked.step
        return [output])
      (do
        let output ← Parser.expectDeclared
        Parser.advance
        return [output]) := by
  refine move (fun s holds => ⟨token, here s holds⟩)
    (fun c s stands holds => stands.expectDeclared_apply (here s holds) named)
    (fun s holds => Parser.expectDeclared_eq_done.mpr ⟨token, here s holds, named, rfl, rfl⟩)
    (.step ?_ (.pure _))
  rintro _ ⟨s, holds, rfl⟩
  have second : s.next.peekKind = some .assign := behind s holds
  obtain ⟨assign, found, -⟩ := State.peek_of_peekKind second
  exact ⟨assign, found⟩

/-- Both read the same outputs of a function. -/
theorem functionOutputs (steps : Nat) :
    Tracks depth known (Checked.functionOutputs steps) (Parser.functionOutputs steps) := by
  refine .bind (.consume _) fun _ => ?_
  split
  · exact (bracketedOutputs steps).bind fun _ =>
      (Tracks.expect .assign).discard.bind fun _ => .pure _
  intro c s deep stands _
  rw [bind_apply, stands.atOutput_apply, Verdict.bind_done]
  simp only [Parser.bind_apply, Parser.peekKind_apply, Parser.secondKind_apply, Outcome.bind_done]
  by_cases single : s.peekKind = some .ident ∧ s.secondKind = some .assign
  · obtain ⟨token, found, kind⟩ := State.peek_of_peekKind single.1
    have output : Tracks depth (fun s => s.peek = some token ∧ s.secondKind = some .assign) _ _ :=
      singleOutput (fun s holds => holds.1) kind fun s holds => holds.2
    rw [if_pos (decide_eq_true single), if_pos single]
    exact output c s deep stands ⟨found, single.2⟩
  · rw [if_neg (by simpa using single), if_neg single]
    exact .done deep stands

/-- Both read the same head of a function. -/
theorem functionHead (steps : Nat) (pos : Position) :
    Tracks depth known (Checked.functionHead steps pos) (Parser.functionHead steps pos) := by
  refine (functionOutputs steps).bind fun _ => .bind .expectDeclared fun _ => ?_
  refine .peekKind fun _ => ?_
  split
  · exact (parameters steps).bind fun _ => .pure _
  · exact .bind (.pure []) fun _ => .pure _

/-- A function is tracked from its keyword on, outside all other functions. -/
theorem function {token : Token} (here : ∀ s, known s → s.peek = some token)
    (kind : token.kind = .functionKeyword) (steps : Nat) :
    Tracks ⟨[], 0⟩ known (Checked.function steps dialect)
      (do
        Parser.advance
        Parser.function steps dialect token.pos) := by
  refine .expected here kind ((functionHead steps token.pos).bind fun head => ?_)
  refine .bind (.report _) fun _ => .inFunction _ ((tracksStatements steps dialect).block 1 _) ?_
  intro body scope
  exact (Tracks.consume .endKeyword).discard.bind fun _ => .bind (.report _) fun _ => .pure _

/-- A program is read outside all functions from its first token to its last. -/
theorem topLevel (steps : Nat) :
    Tracks ⟨[], 0⟩ known (Checked.topLevel steps dialect) (Parser.topLevel steps dialect) := by
  induction steps generalizing known with
  | zero => exact .exhausted
  | succ steps ih =>
    rw [Checked.topLevel, Parser.topLevel]
    refine .bind (.skipWhile _) fun _ => .peekKind_of_peek fun found => ?_
    cases found with
    | none => exact .pure _
    | some token =>
      dsimp only [Option.map_some]
      split
      · next kind =>
        refine .congr (.bind (function (fun s holds => holds.2) kind steps) fun first =>
          ih.bind fun _ => .pure _) fun s _ => ?_
        simp only [Parser.bind_apply, Outcome.bind_bind]
        rfl
      split
      · exact .complain (by simp)
      · exact ((tracksStatements steps dialect).statement 0).anyway.bind fun first =>
          ih.bind fun _ => .pure _

end Tracks

end MatlabFront.Checked
