import MatlabFront.Proofs.Expression.Sound
import MatlabFront.Proofs.Program.Scope
import MatlabFront.Proofs.Program.Steps

/-!
# Accepted programs follow the grammar

What the parser of programs reads is the tree of something written that the rules read between the
same two states. As for expressions the proof is by induction on the steps, with one lemma for each
function.
-/

namespace MatlabFront

namespace Surface

/-- The clauses of a switch with their trees, and the tree of its last part. -/
def Cases.chain (outputs : List Ident) : Cases → List CaseClause × Option (List Stmt)
  | .none => ([], Option.none)
  | .otherwise body => ([], some (lowerAll outputs body))
  | .case value body cases pos =>
    (⟨value, lowerAll outputs body, pos⟩ :: (cases.chain outputs).1, (cases.chain outputs).2)

/-- What a chain of cases comes to is what runs when the cases before it do not fit. -/
theorem statements_lower (subject : Expr) (chain : CaseChain) :
    (chain.lower subject).statements = alternative (chain.remainder subject) := by
  cases chain <;> rfl

/-- The chain of the cases of a switch comes to the tree of the switch. -/
theorem Cases.remainder_chain (outputs : List Ident) (subject : Expr) (cases : Cases) :
    (CaseChain.ofClauses (cases.chain outputs).1 (cases.chain outputs).2).remainder subject =
      cases.lower outputs subject := by
  match cases with
  | .none | .otherwise _ => rfl
  | .case value body rest pos =>
    rw [Cases.lower, ← rest.remainder_chain outputs subject]
    rfl

/-- What is read with some steps is the tree of something that follows the rules. -/
structure SoundAt (dialect : Dialect) (steps : Nat) : Prop where
  block {ends : Kind → Bool} {s final : State} {body : List Stmt} :
    Parser.block steps dialect ends s = .done body final →
      ∃ written, body = lowerAll s.outputs written ∧ Reads dialect (.block ends written) s final
  statement {s final : State} {statements : List Stmt} :
    Parser.statement steps dialect s = .done statements final →
      ∃ written : Statement, statements = written.lower s.outputs ∧
        Reads dialect (.statement written) s final
  openStatement {s final : State} {statements : List Stmt} :
    Parser.openStatement steps dialect s = .done statements final →
      ∃ written : Statement, statements = written.lower s.outputs ∧
        Reads dialect (.openStatement written) s final
  tail {s final : State} {otherwise : Else} :
    Parser.elseBranch steps dialect s = .done otherwise final →
      ∃ written : Tail, otherwise = written.lower s.outputs ∧ Reads dialect (.tail written) s final
  cases {s final : State} {chain : List CaseClause × Option (List Stmt)} :
    Parser.cases steps dialect s = .done chain final →
      ∃ written : Cases, chain = written.chain s.outputs ∧ Reads dialect (.cases written) s final

variable {dialect : Dialect} {steps : Nat} {s final : State}

/-- A whole expression follows the rules, and keeps the outputs of the function. -/
theorem wholeExpression_sound {whole : Expr}
    (run : Parser.wholeExpression steps s = .done whole final) :
    Grammar.Reads (.expression .outside 0 whole) s final ∧ final.outputs = s.outputs := by
  have reads := Grammar.soundAt steps (.expression .outside 0 whole) s final run
  exact ⟨reads, State.Notes.outputs reads.noted⟩

/-- Statements keep the outputs of the function. -/
theorem Reads.outputs_block {ends : Kind → Bool} {body : List Statement}
    (reads : Reads dialect (.block ends body) s final) : final.outputs = s.outputs :=
  State.Notes.outputs reads.noted

/-- A whole expression with a separator behind it. -/
theorem separated_sound {α : Type} {clause : Clause} {next : Expr → Parser α} {value : α}
    (run : (Parser.wholeExpression steps s).bind (fun whole => do
      Parser.expectSeparator clause
      next whole) = .done value final) :
    ∃ whole s₁, Grammar.Reads (.expression .outside 0 whole) s s₁ ∧ s₁.outputs = s.outputs ∧
      s₁.atSeparator = true ∧ next whole s₁ = .done value final := by
  obtain ⟨whole, s₁, head, tail⟩ := Outcome.bind_eq_done.mp run
  obtain ⟨reads, outputs⟩ := wholeExpression_sound head
  rw [Parser.bind_apply, Parser.expectSeparator_apply] at tail
  by_cases separates : s₁.atSeparator = true
  · rw [if_pos separates] at tail
    exact ⟨whole, s₁, reads, outputs, separates, tail⟩
  · simp [separates] at tail

/-- A block with the keyword behind it that ends it. -/
theorem ended_sound {α : Type} {block : Block} {next : Parser α} {value : α}
    (run : (do
      Parser.expectEnd block
      next : Parser α) s = .done value final) :
    s.peekKind = some .endKeyword ∧ next s.next = .done value final := by
  obtain ⟨⟨⟩, s₁, ends, run⟩ := Outcome.bind_eq_done.mp run
  obtain ⟨here, rfl⟩ := Parser.expectEnd_eq_done.mp ends
  exact ⟨here, run⟩

/-- An accepted block follows the rules when its statements do with a step less. -/
theorem block_sound (sound : SoundAt dialect steps) {ends : Kind → Bool} {body : List Stmt}
    (run : Parser.block (steps + 1) dialect ends s = .done body final) :
    ∃ written, body = lowerAll s.outputs written ∧
      Reads dialect (.block ends written) s final := by
  rw [Parser.block_succ] at run
  cases known : s.skipSeparators.peekKind with
  | none =>
    simp only [known] at run
    obtain ⟨rfl, rfl⟩ := Outcome.done.inj run
    exact ⟨[], rfl, .blockEnd (by simp [known])⟩
  | some kind =>
    simp only [known] at run
    by_cases ended : ends kind = true
    · rw [if_pos ended] at run
      obtain ⟨rfl, rfl⟩ := Outcome.done.inj run
      exact ⟨[], rfl, .blockEnd (by simp [known, ended])⟩
    rw [if_neg ended] at run
    by_cases nested : kind = .functionKeyword
    · simp [nested] at run
    rw [if_neg nested] at run
    by_cases misplaced : kind.isBlockKeyword = true
    · simp [misplaced] at run
    rw [if_neg misplaced] at run
    obtain ⟨statements, s₁, head, tail⟩ := Outcome.bind_eq_done.mp run
    obtain ⟨first, rfl, reads⟩ := sound.statement head
    obtain ⟨later, s₂, rest, last⟩ := Outcome.bind_eq_done.mp tail
    obtain ⟨rfl, rfl⟩ := Outcome.done.inj last
    obtain ⟨written, rfl, more⟩ := sound.block rest
    have outputs : s₁.outputs = s.outputs := State.Notes.outputs reads.noted
    refine ⟨first :: written, by rw [outputs]; rfl, ?_⟩
    exact .block known (by simpa using ended) (by simpa using misplaced) reads more

/-- An accepted statement follows the rules with what ends it. -/
theorem statement_sound (sound : SoundAt dialect steps) {statements : List Stmt}
    (run : Parser.statement (steps + 1) dialect s = .done statements final) :
    ∃ written : Statement, statements = written.lower s.outputs ∧
      Reads dialect (.statement written) s final := by
  rw [Parser.statement_succ] at run
  obtain ⟨found, s₁, head, tail⟩ := Outcome.bind_eq_done.mp run
  obtain ⟨written, rfl, reads⟩ := sound.openStatement head
  by_cases terminates : s₁.atTerminator = true
  · rw [if_pos terminates] at tail
    obtain ⟨rfl, rfl⟩ := Outcome.done.inj tail
    exact ⟨written, rfl, .statement reads terminates⟩
  · simp [terminates] at tail

/-- The targets of a row are those of its elements. -/
theorem targets_sound {row : List Expr} {targets : List Target}
    (read : Assignment.targets row = .ok targets) : row.map Target.ofExpr? = targets.map some := by
  induction row generalizing targets with
  | nil =>
    obtain rfl : [] = targets := Except.ok.inj read
    rfl
  | cons expr row ih =>
    unfold Assignment.targets Assignment.target at read
    cases first : Target.ofExpr? expr with
    | none => simp [first] at read
    | some target =>
      cases later : Assignment.targets row with
      | error => simp [first, later] at read
      | ok rest =>
        simp only [first, later, Except.ok.injEq] at read
        subst read
        simp [first, ih later]

/-- An assignment that is accepted is one of the three sorts. -/
theorem assignment_sound {left value : Expr} {pos : Position} {statement : Stmt}
    (run : Assignment.statement left value pos = .ok statement) (outputs : List Ident) :
    ∃ written : Statement, [statement] = written.lower outputs ∧
      Assigns pos left value written := by
  have single (notMatrix : ∀ rows start, left ≠ .matrix rows start) :
      ∃ target, Target.ofExpr? left = some target ∧ statement = .assign target value pos := by
    unfold Assignment.statement at run
    split at run
    · next rows start => exact absurd rfl (notMatrix rows start)
    · unfold Assignment.target at run
      cases read : Target.ofExpr? left with
      | none => simp [read] at run
      | some target =>
        simp only [read, Except.ok.injEq] at run
        exact ⟨target, rfl, run.symm⟩
  by_cases matrix : ∃ rows start, left = .matrix rows start
  · obtain ⟨rows, start, rfl⟩ := matrix
    match rows with
    | [first :: more] =>
      cases read : Assignment.targets (first :: more) with
      | error => simp [Assignment.statement, Assignment.multiple, read] at run
      | ok targets =>
        have same := targets_sound read
        simp only [Assignment.statement, Assignment.multiple, read] at run
        match value with
        | .ident function =>
          obtain rfl := Except.ok.inj run
          exact ⟨_, rfl, .name (by simp) same⟩
        | .call (.mk callee args none callPos) =>
          obtain rfl := Except.ok.inj run
          exact ⟨_, rfl, .call (by simp) same⟩
        | .call (.mk _ _ (some _) _) | .number .. | .string .. | .colon .. | .range .. |
          .lastIndex .. | .unary .. | .binary .. | .matrix .. | .cell .. | .flatten .. |
          .cellIndex .. | .member .. | .transpose .. | .lambda .. | .handle .. | .parens .. =>
          simp [Assignment.callWith] at run
    | [] | [[]] | _ :: _ :: _ => simp [Assignment.statement, Assignment.multiple] at run
  · obtain ⟨target, read, rfl⟩ := single (fun rows start same => matrix ⟨rows, start, same⟩)
    exact ⟨_, rfl, .one read⟩

/-- What is accepted as an assignment or expression follows the rule for one of them. -/
theorem assignmentOrExpression_sound {statement : Stmt}
    (plain : startsPlain s.peekKind = true)
    (noCommand : dialect = .strict ∨ Command.begins s.rest = false)
    (run : Parser.assignmentOrExpression steps s = .done statement final) :
    ∃ written : Statement, [statement] = written.lower s.outputs ∧
      Reads dialect (.openStatement written) s final := by
  rw [Parser.assignmentOrExpression_apply] at run
  obtain ⟨left, s₁, head, tail⟩ := Outcome.bind_eq_done.mp run
  obtain ⟨leftReads, -⟩ := wholeExpression_sound head
  cases known : s₁.peek with
  | none =>
    simp only [known] at tail
    obtain ⟨rfl, rfl⟩ := Outcome.done.inj tail
    exact ⟨.eval left, rfl, .eval plain noCommand leftReads (by simp [State.peekKind_of_end known])⟩
  | some token =>
    simp only [known] at tail
    by_cases assigns : token.kind = .assign
    · rw [if_pos assigns] at tail
      obtain ⟨value, s₂, second, last⟩ := Outcome.bind_eq_done.mp tail
      obtain ⟨valueReads, -⟩ := wholeExpression_sound second
      cases made : Assignment.statement left value token.pos with
      | error => simp [Parser.ofExcept, made] at last
      | ok found =>
        simp only [Parser.ofExcept, made] at last
        obtain ⟨rfl, rfl⟩ := Outcome.done.inj last
        obtain ⟨written, tree, sort⟩ := assignment_sound made s.outputs
        exact ⟨written, tree, .assign plain noCommand leftReads known assigns valueReads sort⟩
    · rw [if_neg assigns] at tail
      obtain ⟨rfl, rfl⟩ := Outcome.done.inj tail
      refine ⟨.eval left, rfl, .eval plain noCommand leftReads ?_⟩
      simpa [State.peekKind_of_peek known] using assigns

/-- An accepted statement without a keyword is a command, an assignment or an expression. -/
theorem plainStatement_sound {statement : Stmt} (plain : startsPlain s.peekKind = true)
    (run : Parser.plainStatement steps dialect s = .done statement final) :
    ∃ written : Statement, [statement] = written.lower s.outputs ∧
      Reads dialect (.openStatement written) s final := by
  rw [Parser.plainStatement_apply] at run
  cases dialect with
  | strict => exact assignmentOrExpression_sound plain (.inl rfl) run
  | matlab =>
    by_cases begins : Command.begins s.rest = true
    · simp only [begins, ↓reduceIte] at run
      obtain ⟨call, rfl, -, -⟩ := Parser.command_done run
      exact ⟨.command call, rfl, .command plain rfl begins run⟩
    · simp only [begins, Bool.false_eq_true, ↓reduceIte] at run
      exact assignmentOrExpression_sound plain (.inr (by simpa using begins)) run

/-- Accepted names follow the rules. -/
theorem namesFrom_sound {names : List Ident}
    (run : Parser.namesFrom steps s = .done names final) : Names names s final := by
  induction steps generalizing s names with
  | zero => simp [Parser.namesFrom] at run
  | succ steps ih =>
    rw [Parser.namesFrom_succ] at run
    by_cases here : s.peekKind = some .ident
    · rw [if_pos here] at run
      obtain ⟨name, s₁, first, tail⟩ := Outcome.bind_eq_done.mp run
      obtain ⟨later, s₂, rest, last⟩ := Outcome.bind_eq_done.mp tail
      obtain ⟨rfl, rfl⟩ := Outcome.done.inj last
      obtain ⟨token, known, kind, rfl, rfl⟩ := Parser.expectUsed_eq_done.mp first
      exact .name known kind (ih rest)
    · rw [if_neg here] at run
      obtain ⟨rfl, rfl⟩ := Outcome.done.inj run
      exact .stop here

/-- A `global` is accepted with at least one name. -/
theorem globalNames_sound {names : List Ident}
    (run : Parser.globalNames steps s = .done names final) :
    ∃ name more, names = name :: more ∧ Names names s final := by
  obtain ⟨name, s₁, first, tail⟩ := Outcome.bind_eq_done.mp run
  obtain ⟨later, s₂, rest, last⟩ := Outcome.bind_eq_done.mp tail
  obtain ⟨rfl, rfl⟩ := Outcome.done.inj last
  obtain ⟨token, known, kind, rfl, rfl⟩ := Parser.expectUsed_eq_done.mp first
  exact ⟨_, later, rfl, .name known kind (namesFrom_sound rest)⟩

/-- The header of a `for`, with or without parentheses. -/
theorem forHeader_sound {head : Ident × Expr}
    (run : Parser.forHeader steps s = .done head final) :
    (s.headerEnclosed = false ∧ ForHead head.1 head.2 s final ∨
      s.headerEnclosed = true ∧ ∃ s₁, ForHead head.1 head.2 s.next s₁ ∧
        s₁.peekKind = some .rightParen ∧ final = s₁.next) ∧
      final.atSeparator = true := by
  rw [Parser.forHeader_apply] at run
  obtain ⟨var, s₁, first, tail⟩ := Outcome.bind_eq_done.mp run
  rw [Parser.discard_bind] at tail
  obtain ⟨sign, s₂, assigned, value⟩ := Outcome.bind_eq_done.mp tail
  obtain ⟨range, s₃, expression, close⟩ := Outcome.bind_eq_done.mp value
  obtain ⟨token, known, kind, rfl, rfl⟩ := Parser.expectUsed_eq_done.mp first
  obtain ⟨here, signKind, rfl⟩ := Parser.expect_eq_done.mp assigned
  obtain ⟨reads, -⟩ := wholeExpression_sound expression
  have sign : _ = some Kind.assign := signKind ▸ State.peekKind_of_peek here
  have header := ForHead.mk known kind rfl sign reads
  have separates {s₄ : State} (last : (do
      Parser.expectSeparator .forHeader
      return (Parser.declared token, range) : Parser (Ident × Expr)) s₄ = .done head final) :
      s₄.atSeparator = true ∧ head = (Parser.declared token, range) ∧ final = s₄ := by
    rw [Parser.bind_apply, Parser.expectSeparator_apply] at last
    by_cases separates : s₄.atSeparator = true
    · rw [if_pos separates] at last
      obtain ⟨rfl, rfl⟩ := Outcome.done.inj last
      exact ⟨separates, rfl, rfl⟩
    · simp [separates] at last
  cases enclosed : s.headerEnclosed with
  | true =>
    simp only [enclosed, ↓reduceIte] at close header
    rw [Parser.discard_bind] at close
    obtain ⟨bracket, s₄, closes, last⟩ := Outcome.bind_eq_done.mp close
    obtain ⟨found, closeKind, rfl⟩ := Parser.expect_eq_done.mp closes
    obtain ⟨atSeparator, rfl, rfl⟩ := separates last
    exact ⟨.inr ⟨rfl, s₃, header, closeKind ▸ State.peekKind_of_peek found, rfl⟩, atSeparator⟩
  | false =>
    simp only [enclosed, Bool.false_eq_true, ↓reduceIte] at close header
    obtain ⟨atSeparator, rfl, rfl⟩ := separates close
    exact ⟨.inl ⟨rfl, header⟩, atSeparator⟩

/-- The condition of an `if` and what is read over behind it. -/
theorem ifCondition_sound {condition : Expr}
    (run : Parser.ifCondition steps dialect s = .done condition final) :
    ∃ s₁, Grammar.Reads (.expression .outside 0 condition) s s₁ ∧
      Separated dialect s₁ final ∧ final.outputs = s.outputs := by
  rw [Parser.ifCondition_apply] at run
  obtain ⟨found, s₁, head, tail⟩ := Outcome.bind_eq_done.mp run
  obtain ⟨reads, outputs⟩ := wholeExpression_sound head
  have kept {s₂ : State} (separated : Separated dialect s₁ s₂) : s₂.outputs = s.outputs := by
    rw [← outputs, State.outputs, separated.scope, State.outputs]
  by_cases separates : s₁.atSeparator = true
  · rw [if_pos separates] at tail
    obtain ⟨rfl, rfl⟩ := Outcome.done.inj tail
    exact ⟨s₁, reads, .separator separates, kept (.separator separates)⟩
  · rw [if_neg separates, Parser.resynchronize_apply] at tail
    cases dialect with
    | strict => simp at tail
    | matlab =>
      obtain ⟨rfl, rfl⟩ := Outcome.done.inj tail
      have resumed : Separated .matlab s₁ s₁.resume := .resumed (by simpa using separates) rfl
      exact ⟨s₁, reads, resumed, kept resumed⟩

section Keyword

variable {token : Token} {statements : List Stmt}

/-- What is accepted behind the keyword of an `if` follows its rule. -/
theorem branch_sound (sound : SoundAt dialect steps) (known : s.peek = some token)
    (kind : token.kind = .ifKeyword)
    (run : ((Parser.ifCondition steps dialect s.next).bind fun condition => do
      let body ← Parser.block steps dialect Parser.endsBranch
      let otherwise ← Parser.elseBranch steps dialect
      Parser.expectEnd .ifBlock
      return [.branch (.mk condition body otherwise token.pos)]) = .done statements final) :
    ∃ written : Statement, statements = written.lower s.outputs ∧
      Reads dialect (.openStatement written) s final := by
  obtain ⟨condition, s₂, head, run⟩ := Outcome.bind_eq_done.mp run
  obtain ⟨s₁, reads, separated, outputs⟩ := ifCondition_sound head
  obtain ⟨body, s₃, first, run⟩ := Outcome.bind_eq_done.mp run
  obtain ⟨bodyWritten, rfl, bodyReads⟩ := sound.block first
  obtain ⟨otherwise, s₄, second, run⟩ := Outcome.bind_eq_done.mp run
  obtain ⟨tailWritten, rfl, tailReads⟩ := sound.tail second
  obtain ⟨ended, last⟩ := ended_sound run
  obtain ⟨rfl, rfl⟩ := Outcome.done.inj last
  refine ⟨.branch condition bodyWritten tailWritten token.pos, ?_,
    .branch known kind reads separated bodyReads tailReads ended⟩
  rw [Statement.lower, bodyReads.outputs_block, outputs, State.next_outputs]

/-- What is accepted behind the keyword of a `while` follows its rule. -/
theorem whileLoop_sound (sound : SoundAt dialect steps) (known : s.peek = some token)
    (kind : token.kind = .whileKeyword)
    (run : ((Parser.wholeExpression steps s.next).bind fun condition => do
      Parser.expectSeparator .whileCondition
      let body ← Parser.block steps dialect (· == .endKeyword)
      Parser.expectEnd .whileBlock
      return [.whileLoop condition body token.pos]) = .done statements final) :
    ∃ written : Statement, statements = written.lower s.outputs ∧
      Reads dialect (.openStatement written) s final := by
  obtain ⟨condition, s₁, reads, outputs, separates, run⟩ := separated_sound run
  obtain ⟨body, s₂, first, run⟩ := Outcome.bind_eq_done.mp run
  obtain ⟨written, rfl, bodyReads⟩ := sound.block first
  obtain ⟨ended, last⟩ := ended_sound run
  obtain ⟨rfl, rfl⟩ := Outcome.done.inj last
  refine ⟨.whileLoop condition written token.pos, ?_,
    .whileLoop known kind reads separates bodyReads ended⟩
  rw [Statement.lower, outputs, State.next_outputs]

/-- What is accepted behind the keyword of a `for` follows one of its two rules. -/
theorem forLoop_sound (sound : SoundAt dialect steps) (known : s.peek = some token)
    (kind : token.kind = .forKeyword)
    (run : ((Parser.forHeader steps s.next).bind fun head => do
      let body ← Parser.block steps dialect (· == .endKeyword)
      Parser.expectEnd .forBlock
      return [.forLoop head.1 head.2 body token.pos]) = .done statements final) :
    ∃ written : Statement, statements = written.lower s.outputs ∧
      Reads dialect (.openStatement written) s final := by
  obtain ⟨header, s₁, head, run⟩ := Outcome.bind_eq_done.mp run
  obtain ⟨sort, separates⟩ := forHeader_sound head
  obtain ⟨body, s₂, first, run⟩ := Outcome.bind_eq_done.mp run
  obtain ⟨written, rfl, bodyReads⟩ := sound.block first
  obtain ⟨ended, last⟩ := ended_sound run
  obtain ⟨rfl, rfl⟩ := Outcome.done.inj last
  refine ⟨.forLoop header.1 header.2 written token.pos, ?_, ?_⟩
  · have outputs : s₁.outputs = s.outputs := by
      obtain ⟨-, headReads⟩ | ⟨-, s', headReads, -, rfl⟩ := sort
      · exact headReads.noted.outputs
      · exact headReads.noted.outputs
    rw [Statement.lower, outputs]
  · obtain ⟨bare, headReads⟩ | ⟨enclosed, s', headReads, closes, rfl⟩ := sort
    · exact .forLoop known kind bare headReads separates bodyReads ended
    · exact .forEnclosed known kind enclosed headReads closes separates bodyReads ended

/-- What is accepted behind the keyword of a switch follows its rule, and is lowered to its chain. -/
theorem switch_sound (sound : SoundAt dialect steps) (known : s.peekKind = some .switchKeyword)
    (run : ((Parser.wholeExpression steps s.next).bind fun subject => do
      Parser.expectSeparator .switchSubject
      let chain ← Parser.cases steps dialect
      Parser.expectEnd .switchBlock
      match chain.1 with
      | [] => pure ()
      | first :: _ => Parser.report (.switchLowered first.pos.line)
      return (CaseChain.lower subject (.ofClauses chain.1 chain.2)).statements) =
        .done statements final) :
    ∃ written : Statement, statements = written.lower s.outputs ∧
      Reads dialect (.openStatement written) s final := by
  obtain ⟨subject, s₁, reads, outputs, separates, run⟩ := separated_sound run
  obtain ⟨chain, s₂, first, run⟩ := Outcome.bind_eq_done.mp run
  obtain ⟨written, rfl, casesReads⟩ := sound.cases first
  obtain ⟨ended, last⟩ := ended_sound run
  have switched := Reads.switch known reads separates casesReads ended
  have tree : (CaseChain.lower subject (.ofClauses (written.chain s₁.outputs).1
      (written.chain s₁.outputs).2)).statements =
      (Statement.switch subject written).lower s.outputs := by
    rw [statements_lower, written.remainder_chain, Statement.lower, outputs, State.next_outputs]
  cases written with
  | none | otherwise | case =>
    obtain ⟨rfl, rfl⟩ := Outcome.done.inj last
    exact ⟨_, tree, switched⟩

/-- What is accepted behind the keyword of a `try` follows the rule with a handler or the one
without. -/
theorem tryCatch_sound (sound : SoundAt dialect steps) (known : s.peek = some token)
    (kind : token.kind = .tryKeyword)
    (run : ((Parser.block steps dialect Parser.endsTry s.next).bind fun body => do
      let handler ← if ← Parser.consume .catchKeyword then
          Parser.block steps dialect (· == .endKeyword)
        else pure []
      Parser.expectEnd .tryBlock
      return [.tryCatch body handler token.pos]) = .done statements final) :
    ∃ written : Statement, statements = written.lower s.outputs ∧
      Reads dialect (.openStatement written) s final := by
  obtain ⟨body, s₁, first, run⟩ := Outcome.bind_eq_done.mp run
  obtain ⟨written, rfl, bodyReads⟩ := sound.block first
  rw [Parser.bind_apply, Parser.consume_apply] at run
  by_cases catches : s₁.peekKind = some .catchKeyword
  · rw [if_pos catches, Outcome.bind_done, if_pos rfl] at run
    obtain ⟨handler, s₂, second, run⟩ := Outcome.bind_eq_done.mp run
    obtain ⟨handlerWritten, rfl, handlerReads⟩ := sound.block second
    obtain ⟨ended, last⟩ := ended_sound run
    obtain ⟨rfl, rfl⟩ := Outcome.done.inj last
    refine ⟨.tryCatch written handlerWritten token.pos, ?_,
      .tryCatch known kind bodyReads catches handlerReads ended⟩
    simp only [Statement.lower, State.next_outputs, bodyReads.outputs_block]
  · rw [if_neg catches] at run
    obtain ⟨ended, last⟩ := ended_sound run
    obtain ⟨rfl, rfl⟩ := Outcome.done.inj last
    exact ⟨.tryCatch written [] token.pos, rfl, .tryOnly known kind bodyReads ended⟩

end Keyword

/-- An accepted statement follows the rule for its keyword when its blocks follow theirs with a step
less. -/
theorem openStatement_sound (sound : SoundAt dialect steps) {statements : List Stmt}
    (run : Parser.openStatement (steps + 1) dialect s = .done statements final) :
    ∃ written : Statement, statements = written.lower s.outputs ∧
      Reads dialect (.openStatement written) s final := by
  by_cases plain : startsPlain s.peekKind = true
  · rw [Parser.openStatement_of_plain plain] at run
    obtain ⟨found, s₁, head, tail⟩ := Outcome.bind_eq_done.mp run
    obtain ⟨rfl, rfl⟩ := Outcome.done.inj tail
    exact plainStatement_sound plain head
  -- Otherwise a keyword comes next, and says which statement it is.
  obtain ⟨token, known⟩ : ∃ token, s.peek = some token := by
    cases known : s.peek with
    | none => simp [State.peekKind_of_end known, startsPlain] at plain
    | some token => exact ⟨token, rfl⟩
  rw [State.peekKind_of_peek known] at plain
  rw [Parser.openStatement_of_peek known] at run
  split at run
  case h_1 kind => exact branch_sound sound known kind run
  case h_2 kind => exact whileLoop_sound sound known kind run
  case h_3 kind => exact forLoop_sound sound known kind run
  case h_4 kind =>
    exact switch_sound sound (State.peekKind_of_peek known ▸ congrArg some kind) run
  case h_5 kind => exact tryCatch_sound sound known kind run
  case h_6 kind =>
    obtain ⟨names, s₁, head, last⟩ := Outcome.bind_eq_done.mp run
    obtain ⟨rfl, rfl⟩ := Outcome.done.inj last
    obtain ⟨name, more, rfl, reads⟩ := globalNames_sound head
    exact ⟨.global (name :: more) token.pos, rfl, .global known kind reads⟩
  case h_7 kind =>
    obtain ⟨rfl, rfl⟩ := Outcome.done.inj run
    exact ⟨.breakLoop token.pos, rfl, .breakLoop known kind⟩
  case h_8 kind =>
    obtain ⟨rfl, rfl⟩ := Outcome.done.inj run
    exact ⟨.continueLoop token.pos, rfl, .continueLoop known kind⟩
  case h_9 kind =>
    obtain ⟨rfl, rfl⟩ := Outcome.done.inj run
    exact ⟨.leave token.pos, rfl, .leave known kind⟩
  case h_10 noIf noWhile noFor noSwitch noTry noGlobal noBreak noContinue noReturn =>
    refine absurd ?_ plain
    unfold startsPlain
    split <;> simp_all

/-- What is accepted behind the body of an `if` follows the rules for alternatives. -/
theorem elseBranch_sound (sound : SoundAt dialect steps) {otherwise : Else}
    (run : Parser.elseBranch (steps + 1) dialect s = .done otherwise final) :
    ∃ written : Tail, otherwise = written.lower s.outputs ∧
      Reads dialect (.tail written) s final := by
  by_cases branches : s.peekKind = some .elseIfKeyword
  · obtain ⟨token, known, kind⟩ := State.peek_of_peekKind branches
    simp only [Parser.elseBranch_of_peek known, kind] at run
    obtain ⟨condition, s₁, reads, outputs, separates, run⟩ := separated_sound run
    obtain ⟨body, s₂, first, run⟩ := Outcome.bind_eq_done.mp run
    obtain ⟨written, rfl, bodyReads⟩ := sound.block first
    obtain ⟨tail, s₃, second, last⟩ := Outcome.bind_eq_done.mp run
    obtain ⟨tailWritten, rfl, tailReads⟩ := sound.tail second
    obtain ⟨rfl, rfl⟩ := Outcome.done.inj last
    refine ⟨.branch condition written tailWritten token.pos, ?_,
      .branchTail known kind reads separates bodyReads tailReads⟩
    rw [Tail.lower, bodyReads.outputs_block, outputs, State.next_outputs]
  by_cases alternative : s.peekKind = some .elseKeyword
  · obtain ⟨token, known, kind⟩ := State.peek_of_peekKind alternative
    simp only [Parser.elseBranch_of_peek known, kind] at run
    obtain ⟨body, s₁, first, last⟩ := Outcome.bind_eq_done.mp run
    obtain ⟨written, rfl, bodyReads⟩ := sound.block first
    obtain ⟨rfl, rfl⟩ := Outcome.done.inj last
    exact ⟨.otherwise written, rfl, .otherwiseTail alternative bodyReads⟩
  · rw [Parser.elseBranch_of_ne branches alternative] at run
    obtain ⟨rfl, rfl⟩ := Outcome.done.inj run
    exact ⟨.none, rfl, .noTail branches alternative⟩

/-- Accepted cases of a switch follow the rules when their bodies do with a step less. -/
theorem cases_sound (sound : SoundAt dialect steps)
    {chain : List CaseClause × Option (List Stmt)}
    (run : Parser.cases (steps + 1) dialect s = .done chain final) :
    ∃ written : Cases, chain = written.chain s.outputs ∧
      Reads dialect (.cases written) s final := by
  by_cases branches : s.skipSeparators.peekKind = some .caseKeyword
  · obtain ⟨token, known, kind⟩ := State.peek_of_peekKind branches
    simp only [Parser.cases_of_peek known, kind] at run
    obtain ⟨value, s₁, reads, outputs, separates, run⟩ := separated_sound run
    obtain ⟨body, s₂, first, run⟩ := Outcome.bind_eq_done.mp run
    obtain ⟨written, rfl, bodyReads⟩ := sound.block first
    obtain ⟨more, s₃, second, last⟩ := Outcome.bind_eq_done.mp run
    obtain ⟨casesWritten, rfl, casesReads⟩ := sound.cases second
    obtain ⟨rfl, rfl⟩ := Outcome.done.inj last
    refine ⟨.case value written casesWritten token.pos, ?_,
      .caseCases known kind reads separates bodyReads casesReads⟩
    rw [Cases.chain, bodyReads.outputs_block, outputs, State.next_outputs,
      State.skipSeparators_outputs]
  by_cases alternative : s.skipSeparators.peekKind = some .otherwiseKeyword
  · obtain ⟨token, known, kind⟩ := State.peek_of_peekKind alternative
    simp only [Parser.cases_of_peek known, kind] at run
    obtain ⟨body, s₁, first, last⟩ := Outcome.bind_eq_done.mp run
    obtain ⟨written, rfl, bodyReads⟩ := sound.block first
    obtain ⟨rfl, rfl⟩ := Outcome.done.inj last
    exact ⟨.otherwise written, rfl, .otherwiseCases alternative bodyReads⟩
  · rw [Parser.cases_of_ne branches alternative] at run
    obtain ⟨rfl, rfl⟩ := Outcome.done.inj run
    exact ⟨.none, rfl, .noCases branches alternative⟩

/-- Whatever is read with some steps is the tree of something that follows the rules. -/
theorem soundAt (dialect : Dialect) (steps : Nat) : SoundAt dialect steps := by
  induction steps with
  | zero =>
    refine ⟨fun run => ?_, fun run => ?_, fun run => ?_, fun run => ?_, fun run => ?_⟩ <;>
      simp [Parser.block, Parser.statement, Parser.openStatement, Parser.elseBranch,
        Parser.cases] at run
  | succ steps sound =>
    exact ⟨block_sound sound, statement_sound sound, openStatement_sound sound,
      elseBranch_sound sound, cases_sound sound⟩

/-- Accepted outputs in brackets follow the rules. -/
theorem bracketedOutputs_sound {names : List Ident}
    (run : Parser.bracketedOutputs steps s = .done names final) :
    BracketedOutputs names s final := by
  induction steps generalizing s names with
  | zero => simp [Parser.bracketedOutputs] at run
  | succ steps ih =>
    rw [Parser.bracketedOutputs_succ] at run
    by_cases closes : s.peekKind = some .rightBracket
    · rw [if_pos closes] at run
      obtain ⟨rfl, rfl⟩ := Outcome.done.inj run
      exact .close closes
    rw [if_neg closes] at run
    by_cases comma : s.peekKind = some .comma
    · rw [if_pos comma] at run
      exact .comma comma (ih run)
    · rw [if_neg comma] at run
      obtain ⟨name, s₁, first, tail⟩ := Outcome.bind_eq_done.mp run
      obtain ⟨later, s₂, rest, last⟩ := Outcome.bind_eq_done.mp tail
      obtain ⟨rfl, rfl⟩ := Outcome.done.inj last
      obtain ⟨token, known, kind, rfl, rfl⟩ := Parser.expectDeclared_eq_done.mp first
      exact .name known kind (ih rest)

/-- The accepted outputs of a function follow the rules. -/
theorem functionOutputs_sound {outputs : List Ident}
    (run : Parser.functionOutputs steps s = .done outputs final) : Outputs outputs s final := by
  rw [Parser.functionOutputs_apply] at run
  by_cases bracketed : s.peekKind = some .leftBracket
  · rw [if_pos bracketed] at run
    obtain ⟨names, s₁, head, tail⟩ := Outcome.bind_eq_done.mp run
    rw [Parser.discard_bind] at tail
    obtain ⟨sign, s₂, assigned, last⟩ := Outcome.bind_eq_done.mp tail
    obtain ⟨known, kind, rfl⟩ := Parser.expect_eq_done.mp assigned
    obtain ⟨rfl, rfl⟩ := Outcome.done.inj last
    exact .bracketed bracketed (bracketedOutputs_sound head) (kind ▸ State.peekKind_of_peek known)
  rw [if_neg bracketed] at run
  by_cases single : s.peekKind = some .ident ∧ s.secondKind = some .assign
  · rw [if_pos single] at run
    obtain ⟨name, s₁, head, last⟩ := Outcome.bind_eq_done.mp run
    obtain ⟨token, known, kind, rfl, rfl⟩ := Parser.expectDeclared_eq_done.mp head
    obtain ⟨rfl, rfl⟩ := Outcome.done.inj last
    exact .single known kind single.2
  · rw [if_neg single] at run
    obtain ⟨rfl, rfl⟩ := Outcome.done.inj run
    exact .none bracketed single

/-- The accepted head of a function follows the rules. -/
theorem functionHead_sound {pos : Position} {head : Header}
    (run : Parser.functionHead steps pos s = .done head final) : Head pos head s final := by
  rw [Parser.functionHead_apply] at run
  obtain ⟨outputs, s₁, first, tail⟩ := Outcome.bind_eq_done.mp run
  obtain ⟨name, s₂, second, tail⟩ := Outcome.bind_eq_done.mp tail
  obtain ⟨params, s₃, third, last⟩ := Outcome.bind_eq_done.mp tail
  obtain ⟨token, known, kind, rfl, rfl⟩ := Parser.expectDeclared_eq_done.mp second
  obtain ⟨rfl, rfl⟩ := Outcome.done.inj last
  refine .mk (functionOutputs_sound first) known kind ?_
  by_cases opens : s₁.next.peekKind = some .leftParen
  · rw [if_pos opens] at third
    exact .list opens (Grammar.soundAt steps (.parameters params) _ _ third)
  · rw [if_neg opens] at third
    obtain ⟨rfl, rfl⟩ := Outcome.done.inj third
    exact .none opens

/-- A function whose body was read in its scope is closed as it is written. -/
theorem close_eq (head : Header) (body : List Stmt) (used : Bool) :
    Function.close head body ⟨head.outputs, used⟩ =
      .mk { head with usesNargin := used } (closed head body) := by
  unfold Function.close closed
  cases body.getLast? with
  | none => rfl
  | some last => cases last <;> rfl

/-- A function and its tree. -/
theorem function_sound {pos : Position} {whole : Function}
    (run : Parser.function steps dialect pos s = .done whole final) :
    ∃ head body s₁ s₂, Head pos head s s₁ ∧
      Reads dialect (.block Parser.endsFunction body) (s₁.enter head) s₂ ∧
      [.function whole] = (Item.function { head with usesNargin := s₂.usesNargin } body).lower ∧
      final = s₂.leave.log (.functionClosed head.name.name
        (closed head (lowerAll head.outputs body)).length s₂.usesNargin) := by
  rw [Parser.function_apply] at run
  obtain ⟨head, s₁, first, tail⟩ := Outcome.bind_eq_done.mp run
  obtain ⟨body, s₂, second, last⟩ := Outcome.bind_eq_done.mp tail
  have headReads := functionHead_sound first
  obtain ⟨written, rfl, bodyReads⟩ := (soundAt dialect steps).block second
  obtain ⟨scope, -⟩ := State.Notes.usesNargin (s := s₁.enter head) rfl bodyReads.noted
  have outputs : (s₁.enter head).outputs = head.outputs := rfl
  simp only [scope, Option.getD_some, close_eq, outputs] at last
  obtain ⟨rfl, rfl⟩ := Outcome.done.inj last
  exact ⟨head, written, s₁, s₂, headReads, bodyReads, rfl, rfl⟩

/-- What is noted outside of all functions is nothing. -/
theorem scope_of_outside {used : Prop} (outside : s.scope = none) (notes : s.Notes used final) :
    final.scope = none := by
  unfold State.Notes at notes
  rw [outside] at notes
  generalize final.scope = after at *
  cases notes
  rfl

/-- The top of a program outside of all functions, read to the end of the input. -/
theorem topLevel_sound {body : List Stmt} (outside : s.scope = none)
    (run : Parser.topLevel steps dialect s = .done body final) :
    ∃ items : List Item, body = items.flatMap Item.lower ∧ Reads dialect (.items items) s final ∧
      final.peek = none := by
  induction steps generalizing s body with
  | zero => simp [Parser.topLevel] at run
  | succ steps ih =>
    rw [Parser.topLevel_succ] at run
    cases known : s.skipSeparators.peek with
    | none =>
      simp only [known] at run
      obtain ⟨rfl, rfl⟩ := Outcome.done.inj run
      exact ⟨[], rfl, .noItems known, known⟩
    | some token =>
      simp only [known] at run
      by_cases kind : token.kind = .functionKeyword
      · rw [if_pos kind] at run
        obtain ⟨whole, s₁, first, tail⟩ := Outcome.bind_eq_done.mp run
        obtain ⟨later, s₂, rest, last⟩ := Outcome.bind_eq_done.mp tail
        obtain ⟨rfl, rfl⟩ := Outcome.done.inj last
        obtain ⟨head, body, s₃, s₄, headReads, bodyReads, tree, rfl⟩ := function_sound first
        obtain ⟨items, rfl, reads, ended⟩ := @ih (s₄.leave.log _) _ s₄.leave_scope rest
        refine ⟨_, ?_, .function known kind headReads bodyReads reads rfl, ended⟩
        rw [List.flatMap_cons, ← tree]
        rfl
      rw [if_neg kind] at run
      by_cases stray : token.kind.isBlockKeyword = true
      · simp [stray] at run
      rw [if_neg stray] at run
      obtain ⟨statements, s₁, first, tail⟩ := Outcome.bind_eq_done.mp run
      obtain ⟨later, s₂, rest, last⟩ := Outcome.bind_eq_done.mp tail
      obtain ⟨rfl, rfl⟩ := Outcome.done.inj last
      obtain ⟨written, rfl, statementReads⟩ := (soundAt dialect steps).statement first
      have left : s₁.scope = none := scope_of_outside outside statementReads.noted
      obtain ⟨items, rfl, reads, ended⟩ := ih left rest
      have outputs : s.skipSeparators.outputs = [] := by simp [State.outputs, outside]
      refine ⟨.statement written :: items, by rw [outputs]; rfl, ?_, ended⟩
      exact .item (State.peekKind_of_peek known) (by simpa using stray) statementReads reads

/-- An accepted program is the tree of the statements and functions that the rules read in it. -/
theorem program_sound {tokens : List Token} {program : Program}
    (accepted : Program.ofTokens dialect tokens = some (.ok program)) :
    ∃ (items : List Item) (final : State), Reads dialect (.items items) (.start tokens) final ∧
      final.rest = [] ∧ program.body = items.flatMap Item.lower := by
  unfold Program.ofTokens Reading.ofTokens at accepted
  cases bad : tokens.find? (·.kind == .error) with
  | some token => simp [bad] at accepted
  | none =>
    simp only [bad] at accepted
    cases read : Parser.program dialect (.start tokens) with
    | failed | exhausted => simp [read, Reading.ofOutcome] at accepted
    | done found final =>
      simp only [read, Reading.ofOutcome, Option.some.injEq, Except.ok.injEq] at accepted
      subst accepted
      obtain ⟨body, s₁, run, last⟩ := Outcome.bind_eq_done.mp read
      obtain ⟨rfl, rfl⟩ := Outcome.done.inj last
      obtain ⟨items, tree, reads, ended⟩ := topLevel_sound rfl run
      exact ⟨items, _, reads, List.head?_eq_none_iff.mp ended, tree⟩

/-- An accepted program has no token that is an error. -/
theorem sound_of_accepted {tokens : List Token} {program : Program}
    (accepted : Program.ofTokens dialect tokens = some (.ok program)) :
    tokens.find? (·.kind == .error) = none := by
  unfold Program.ofTokens Reading.ofTokens at accepted
  cases bad : tokens.find? (·.kind == .error) with
  | some token => simp [bad] at accepted
  | none => rfl

end Surface

end MatlabFront
