import MatlabFront.Proofs.Program.Length
import MatlabFront.Proofs.Program.Sound

/-!
# What the grammar reads as a program is accepted

What the rules read in a dialect is read by the parser between the same two states, and comes to its
tree, as soon as there are eight steps for each token and a few more.
-/

namespace MatlabFront

namespace Surface

variable {dialect : Dialect} {s final : State}

/-- A part is what its parser reads between two states with some steps, and comes to its tree. -/
def Part.Accepted (dialect : Dialect) (steps : Nat) (s final : State) : Part → Prop
  | .block ends body =>
    Parser.block steps dialect ends s = .done (lowerAll s.outputs body) final
  | .statement written =>
    Parser.statement steps dialect s = .done (written.lower s.outputs) final
  | .openStatement written =>
    Parser.openStatement steps dialect s = .done (written.lower s.outputs) final
  | .tail written => Parser.elseBranch steps dialect s = .done (written.lower s.outputs) final
  | .cases written => Parser.cases steps dialect s = .done (written.chain s.outputs) final
  | .items written => s.scope = none →
    Parser.topLevel steps dialect s = .done (written.flatMap Item.lower) final

variable {steps : Nat}

/-- An expression is read with some steps, and its function has the same outputs behind it. -/
def Expression (steps : Nat) (s : State) (whole : Expr) (final : State) : Prop :=
  Parser.wholeExpression steps s = .done whole final ∧ final.outputs = s.outputs

/-- A whole expression is accepted with enough steps. -/
theorem wholeExpression_accepted {whole : Expr}
    (reads : Grammar.Reads (.expression .outside 0 whole) s final)
    (fits : 8 * s.rest.length + 1 ≤ steps + 8 * final.rest.length) :
    Expression steps s whole final :=
  ⟨reads.accepted fits, State.Notes.outputs reads.noted⟩

/-- A separator that has to come next comes next. -/
theorem separator_accepted {α : Type} {clause : Clause} {next : Parser α}
    (separates : s.atSeparator = true) :
    (do
      Parser.expectSeparator clause
      next : Parser α) s = next s := by
  rw [Parser.bind_apply, Parser.expectSeparator_apply, if_pos separates, Outcome.bind_done]

/-- The end of a block that has to come next comes next. -/
theorem ended_accepted {α : Type} {block : Block} {next : Parser α}
    (ended : s.peekKind = some .endKeyword) :
    (do
      Parser.expectEnd block
      next : Parser α) s = next s.next := by
  rw [Parser.bind_apply, Parser.expectEnd_eq_done.mpr ⟨ended, rfl⟩, Outcome.bind_done]

/-- A first parser that is done hands on to the next. -/
theorem bind_accepted {α β : Type} {first : Parser α} {next : α → Parser β} {value : α}
    {middle : State} (run : first s = .done value middle) :
    (first >>= next) s = next value middle := by
  rw [Parser.bind_apply, run, Outcome.bind_done]

/-- Names that follow the rules are accepted with a step for each and one more. -/
theorem Names.accepted {names : List Ident} (reads : Names names s final)
    (fits : names.length < steps) : Parser.namesFrom steps s = .done names final := by
  induction reads generalizing steps with
  | stop here =>
    obtain ⟨steps, rfl⟩ : ∃ fewer, steps = fewer + 1 := ⟨steps - 1, by omega⟩
    rw [Parser.namesFrom_succ, if_neg here]
  | name known kind _ ih =>
    obtain ⟨steps, rfl⟩ : ∃ fewer, steps = fewer + 1 := ⟨steps - 1, by omega⟩
    rw [List.length_cons] at fits
    have here : _ = some Kind.ident := kind ▸ State.peekKind_of_peek known
    rw [Parser.namesFrom_succ, if_pos here,
      Parser.expectUsed_eq_done.mpr ⟨_, known, kind, rfl, rfl⟩, Outcome.bind_done,
      bind_accepted (ih (by omega))]
    rfl

/-- At least one name is accepted where a `global` asks for them. -/
theorem globalNames_accepted {name : Ident} {names : List Ident}
    (reads : Names (name :: names) s final) (fits : names.length < steps) :
    Parser.globalNames steps s = .done (name :: names) final := by
  cases reads with
  | name known kind later =>
    rw [Parser.globalNames,
      bind_accepted (Parser.expectUsed_eq_done.mpr ⟨_, known, kind, rfl, rfl⟩),
      bind_accepted (later.accepted fits)]
    rfl

/-- The header of a `for`, up to what stands behind its range. -/
theorem ForHead.accepted {var : Ident} {range : Expr} {s₀ : State}
    (reads : ForHead var range s final)
    (start : s = if s₀.headerEnclosed then s₀.next else s₀)
    (fits : 8 * s.rest.length ≤ steps + 8 * final.rest.length) :
    Parser.forHeader steps s₀ = (do
      if s₀.headerEnclosed then discard (Parser.expect .rightParen)
      Parser.expectSeparator .forHeader
      return (var, range) : Parser (Ident × Expr)) final := by
  subst start
  cases reads with
  | mk known kind named assigned expression =>
    have first := State.length_next known
    have second := State.length_next_of_peekKind assigned
    rw [State.note_rest] at second
    obtain ⟨run, -⟩ := @wholeExpression_accepted _ _ steps _ expression (by omega)
    subst named
    rw [Parser.forHeader_apply, Parser.expectUsed_eq_done.mpr ⟨_, known, kind, rfl, rfl⟩,
      Outcome.bind_done, Parser.discard_expect_bind assigned, bind_accepted run]

/-- Outputs in brackets that follow the rules are accepted with a step for each token. -/
theorem BracketedOutputs.accepted {names : List Ident} (reads : BracketedOutputs names s final)
    (fits : s.rest.length ≤ steps + final.rest.length) :
    Parser.bracketedOutputs steps s = .done names final := by
  induction reads generalizing steps with
  | close known =>
    have shorter := State.length_next_of_peekKind known
    obtain ⟨steps, rfl⟩ : ∃ fewer, steps = fewer + 1 := ⟨steps - 1, by omega⟩
    rw [Parser.bracketedOutputs_succ, if_pos known]
  | comma known later ih =>
    have shorter := State.length_next_of_peekKind known
    have shrinks := later.length_le
    obtain ⟨steps, rfl⟩ : ∃ fewer, steps = fewer + 1 := ⟨steps - 1, by omega⟩
    rw [Parser.bracketedOutputs_succ, if_neg (by simp [known]), if_pos known, ih (by omega)]
  | name known kind later ih =>
    have shorter := State.length_next known
    have shrinks := later.length_le
    have here := State.peekKind_of_peek known
    obtain ⟨steps, rfl⟩ : ∃ fewer, steps = fewer + 1 := ⟨steps - 1, by omega⟩
    rw [Parser.bracketedOutputs_succ, if_neg (by simp [here, kind]), if_neg (by simp [here, kind]),
      Parser.expectDeclared_eq_done.mpr ⟨_, known, kind, rfl, rfl⟩, Outcome.bind_done,
      bind_accepted (ih (by omega))]
    rfl

/-- The outputs of a function that follow the rules are accepted. -/
theorem Outputs.accepted {outputs : List Ident} (reads : Outputs outputs s final)
    (fits : s.rest.length ≤ steps + final.rest.length) :
    Parser.functionOutputs steps s = .done outputs final := by
  rw [Parser.functionOutputs_apply]
  cases reads with
  | @bracketed _ _ s₁ opens names assigned =>
    have first := State.length_next_of_peekKind opens
    have last := State.length_next_of_peekKind assigned
    have run := @BracketedOutputs.accepted _ _ steps _ names (by omega)
    rw [if_pos opens, run, Outcome.bind_done, Parser.discard_expect_bind assigned]
    rfl
  | single known kind assigned =>
    have here : s.peekKind = some .ident := kind ▸ State.peekKind_of_peek known
    rw [if_neg (by simp [here]), if_pos ⟨here, assigned⟩]
    exact Outcome.bind_eq_done.mpr
      ⟨_, _, Parser.expectDeclared_eq_done.mpr ⟨_, known, kind, rfl, rfl⟩, rfl⟩
  | none bare other => rw [if_neg bare, if_neg other]

/-- The head of a function that follows the rules is accepted. -/
theorem Head.accepted {pos : Position} {head : Header} (reads : Head pos head s final)
    (fits : 8 * s.rest.length ≤ steps + 8 * final.rest.length) :
    Parser.functionHead steps pos s = .done head final := by
  cases reads with
  | @mk outputs params token _ s₁ _ declares known kind takes =>
    have first := declares.reaches.length_le
    have second := State.length_next known
    have third := takes.reaches.length_le
    rw [Parser.functionHead_apply]
    refine Outcome.bind_eq_done.mpr ⟨_, _, declares.accepted (by omega), ?_⟩
    refine Outcome.bind_eq_done.mpr
      ⟨_, _, Parser.expectDeclared_eq_done.mpr ⟨_, known, kind, rfl, rfl⟩, ?_⟩
    cases takes with
    | list opens list =>
      have run : Parser.parameters steps s₁.next = .done params final :=
        list.accepted (by simp only [Grammar.Phrase.Fits, Grammar.Phrase.level]; omega)
      rw [if_pos opens, run, Outcome.bind_done]
      rfl
    | none bare =>
      rw [if_neg bare, Outcome.bind_done]
      rfl

/-- The targets of a row are read as those of its elements. -/
theorem targets_accepted {row : List Expr} {targets : List Target}
    (read : row.map Target.ofExpr? = targets.map some) : Assignment.targets row = .ok targets := by
  induction row generalizing targets with
  | nil =>
    obtain rfl : targets = [] := by simpa using read.symm
    rfl
  | cons expr row ih =>
    cases targets with
    | nil => simp at read
    | cons target targets =>
      obtain ⟨first, later⟩ := List.cons_eq_cons.mp read
      simp only [Assignment.targets, Assignment.target, first, ih later]

/-- An assignment of one of the three sorts is made. -/
theorem Assigns.accepted {left value : Expr} {pos : Position} {written : Statement}
    (assigns : Assigns pos left value written) (outputs : List Ident) :
    ∃ statement, Assignment.statement left value pos = .ok statement ∧
      [statement] = written.lower outputs := by
  cases assigns with
  | @one _ _ target read =>
    refine ⟨.assign target value pos, ?_, rfl⟩
    unfold Assignment.statement
    split
    · cases read
    · simp only [Assignment.target, read]
  | @name row targets function start filled same =>
    obtain ⟨first, more, rfl⟩ := List.exists_cons_of_ne_nil filled
    refine ⟨.call (.mk (.ident function) [] (some targets) function.pos), ?_, rfl⟩
    simp only [Assignment.statement, Assignment.multiple, targets_accepted same,
      Assignment.callWith]
  | @call row targets callee args start callPos filled same =>
    obtain ⟨first, more, rfl⟩ := List.exists_cons_of_ne_nil filled
    refine ⟨.call (.mk callee args (some targets) callPos), ?_, rfl⟩
    simp only [Assignment.statement, Assignment.multiple, targets_accepted same,
      Assignment.callWith]

/-- The body of a loop and its end are accepted when the body is. -/
theorem body_accepted {α : Type} {ends : Kind → Bool} {body : List Statement} {block : Block}
    {next : List Stmt → Parser α}
    (run : Part.Accepted dialect steps s final (.block ends body))
    (ended : final.peekKind = some .endKeyword) :
    (do
      let body ← Parser.block steps dialect ends
      Parser.expectEnd block
      next body : Parser α) s = next (lowerAll s.outputs body) final.next := by
  rw [bind_accepted run, ended_accepted ended]

/-- A part is accepted between two states with enough steps. -/
def Part.Complete (dialect : Dialect) (s final : State) (part : Part) : Prop :=
  ∀ steps, part.Fits s final steps → part.Accepted dialect steps s final

/-- A part is accepted if it is with one step and as many as are left for what stands in it. -/
theorem Part.Complete.of_succ {part : Part} (order : final.rest.length ≤ s.rest.length)
    (accepts : ∀ steps, part.Fits s final (steps + 1) →
      part.Accepted dialect (steps + 1) s final) : part.Complete dialect s final := by
  intro steps fits
  obtain ⟨steps, rfl⟩ : ∃ fewer, steps = fewer + 1 := by
    refine ⟨steps - 1, ?_⟩
    cases part <;> simp only [Part.Fits, Part.level] at fits <;> omega
  exact accepts steps fits

section Parts

variable {condition subject value range : Expr} {body handler : List Statement} {tail : Tail}
  {cases : Cases} {written : Statement} {token : Token} {s₁ s₂ s₃ : State} {ends : Kind → Bool}

/-- A block ends where a keyword that ends it comes next behind the separators. -/
theorem Part.Accepted.blockEnd (ended : s.skipSeparators.peekKind.all ends = true) :
    Part.Accepted dialect (steps + 1) s s.skipSeparators (.block ends []) := by
  rw [Part.Accepted, Parser.block_succ]
  cases known : s.skipSeparators.peekKind with
  | none => rfl
  | some kind =>
    have ends : ends kind = true := by simpa [known] using ended
    simp only [ends, ↓reduceIte]
    rfl

/-- A block is accepted with its first statement and the rest of it. -/
theorem Part.Complete.block {kind : Kind} (known : s.skipSeparators.peekKind = some kind)
    (goes : ends kind = false) (plain : kind.isBlockKeyword = false)
    (headReads : Reads dialect (.statement written) s.skipSeparators s₁)
    (tailReads : Reads dialect (.block ends body) s₁ s₂)
    (head : Part.Complete dialect s.skipSeparators s₁ (.statement written))
    (tail : Part.Complete dialect s₁ s₂ (.block ends body)) :
    Part.Complete dialect s s₂ (.block ends (written :: body)) := by
  have skipped := s.length_skipSeparators
  have first := headReads.length_le
  have rest := tailReads.length_le
  simp only [Part.least] at first rest
  refine .of_succ (by omega) fun steps fits => ?_
  simp only [Part.Complete, Part.Fits, Part.level] at *
  have noFunction : kind ≠ .functionKeyword := by
    rintro rfl
    cases plain
  have outputs : s₁.outputs = s.outputs := State.Notes.outputs headReads.noted
  have head := head steps (by omega)
  have later := tail steps (by omega)
  simp only [Part.Accepted, Parser.block_succ, known, goes, noFunction, plain, Bool.false_eq_true,
    ↓reduceIte] at head later ⊢
  rw [head, Outcome.bind_done, bind_accepted later, outputs]
  rfl

/-- A statement is accepted with what ends it. -/
theorem Part.Complete.statement (headReads : Reads dialect (.openStatement written) s s₁)
    (terminates : s₁.atTerminator = true)
    (head : Part.Complete dialect s s₁ (.openStatement written)) :
    Part.Complete dialect s s₁ (.statement written) := by
  have order := headReads.reaches.length_le
  refine .of_succ order fun steps fits => ?_
  simp only [Part.Complete, Part.Fits, Part.level] at *
  rw [Part.Accepted, Parser.statement_succ]
  exact Outcome.bind_eq_done.mpr ⟨_, _, head steps (by omega), if_pos terminates⟩

/-- A statement without a keyword is accepted when its expressions are. -/
theorem Part.Accepted.plain {statement : Stmt} (plain : startsPlain s.peekKind = true)
    (noCommand : dialect = .strict ∨ Command.begins s.rest = false)
    (run : Parser.assignmentOrExpression steps s = .done statement final)
    (tree : [statement] = written.lower s.outputs) :
    Part.Accepted dialect (steps + 1) s final (.openStatement written) := by
  have whole : Parser.plainStatement steps dialect s = .done statement final := by
    rw [Parser.plainStatement_apply]
    obtain rfl | unlike := noCommand
    · exact run
    · cases dialect with
      | strict => exact run
      | matlab => rwa [if_neg (by simp [unlike])]
  rw [Part.Accepted, Parser.openStatement_of_plain plain, whole, Outcome.bind_done, ← tree]
  rfl

/-- An expression is accepted as a statement. -/
theorem Part.Complete.eval (plain : startsPlain s.peekKind = true)
    (noCommand : dialect = .strict ∨ Command.begins s.rest = false)
    (expression : Grammar.Reads (.expression .outside 0 value) s s₁)
    (noAssign : s₁.peekKind ≠ some .assign) :
    Part.Complete dialect s s₁ (.openStatement (.eval value)) := by
  have order := expression.reaches.length_le
  refine .of_succ order fun steps fits => ?_
  simp only [Part.Fits, Part.level] at fits
  obtain ⟨run, -⟩ := @wholeExpression_accepted _ _ steps _ expression (by omega)
  refine .plain plain noCommand ?_ rfl
  rw [Parser.assignmentOrExpression_apply]
  refine Outcome.bind_eq_done.mpr ⟨_, _, run, ?_⟩
  cases known : s₁.peek with
  | none => rfl
  | some token =>
    have other : token.kind ≠ .assign := by simpa [State.peekKind_of_peek known] using noAssign
    simp only [other, ↓reduceIte]

/-- An assignment is accepted with its two sides. -/
theorem Part.Complete.assign {left : Expr} (plain : startsPlain s.peekKind = true)
    (noCommand : dialect = .strict ∨ Command.begins s.rest = false)
    (leftReads : Grammar.Reads (.expression .outside 0 left) s s₁) (sign : s₁.peek = some token)
    (kind : token.kind = .assign)
    (valueReads : Grammar.Reads (.expression .outside 0 value) s₁.next s₂)
    (sort : Assigns token.pos left value written) :
    Part.Complete dialect s s₂ (.openStatement written) := by
  have first := leftReads.length_le
  have shorter := State.length_next sign
  have second := valueReads.length_le
  simp only [Grammar.Phrase.least] at first second
  refine .of_succ (by omega) fun steps fits => ?_
  simp only [Part.Fits, Part.level] at fits
  obtain ⟨leftRun, -⟩ := @wholeExpression_accepted _ _ steps _ leftReads (by omega)
  obtain ⟨valueRun, -⟩ := @wholeExpression_accepted _ _ steps _ valueReads (by omega)
  obtain ⟨statement, made, tree⟩ := sort.accepted s.outputs
  refine .plain plain noCommand ?_ tree
  rw [Parser.assignmentOrExpression_apply]
  refine Outcome.bind_eq_done.mpr ⟨_, _, leftRun, ?_⟩
  simp only [sign, kind, ↓reduceIte, valueRun, Outcome.bind_done, Parser.ofExcept, made]

/-- A command is accepted where one begins in the lenient dialect. -/
theorem Part.Accepted.command {call : Call} (plain : startsPlain s.peekKind = true)
    (lenient : dialect = .matlab) (begins : Command.begins s.rest = true)
    (run : Parser.command s = .done (.call call) final) :
    Part.Accepted dialect (steps + 1) s final (.openStatement (.command call)) := by
  subst lenient
  have whole : Parser.plainStatement steps .matlab s = .done (.call call) final := by
    rw [Parser.plainStatement_apply]
    exact (if_pos begins).trans run
  rw [Part.Accepted, Parser.openStatement_of_plain plain, whole, Outcome.bind_done]
  rfl

/-- The condition of an `if` is accepted with what separates it from the body. -/
theorem Separated.accepted (separated : Separated dialect s₁ s₂)
    (run : Parser.wholeExpression steps s = .done condition s₁) :
    Parser.ifCondition steps dialect s = .done condition s₂ := by
  rw [Parser.ifCondition_apply]
  refine Outcome.bind_eq_done.mpr ⟨_, _, run, ?_⟩
  cases separated with
  | separator separates => exact if_pos separates
  | resumed bare lenient =>
    subst lenient
    rw [if_neg (by simp [bare]), Parser.resynchronize_apply]
    rfl

/-- An `if` is accepted with its condition, its body and what follows the body. -/
theorem Part.Complete.branch {s₄ : State} (known : s.peek = some token)
    (kind : token.kind = .ifKeyword)
    (expression : Grammar.Reads (.expression .outside 0 condition) s.next s₁)
    (separated : Separated dialect s₁ s₂)
    (bodyReads : Reads dialect (.block Parser.endsBranch body) s₂ s₃)
    (tailReads : Reads dialect (.tail tail) s₃ s₄) (ended : s₄.peekKind = some .endKeyword)
    (head : Part.Complete dialect s₂ s₃ (.block Parser.endsBranch body))
    (rest : Part.Complete dialect s₃ s₄ (.tail tail)) :
    Part.Complete dialect s s₄.next (.openStatement (.branch condition body tail token.pos)) := by
  have shorter := State.length_next known
  have last := State.length_next_of_peekKind ended
  have first := expression.length_le
  have between := separated.reaches.length_le
  have second := bodyReads.length_le
  have third := tailReads.length_le
  simp only [Part.least, Grammar.Phrase.least] at first second third
  refine .of_succ (by omega) fun steps fits => ?_
  simp only [Part.Complete, Part.Fits, Part.level] at *
  obtain ⟨run, outputs⟩ := @wholeExpression_accepted _ _ steps _ expression (by omega)
  have same : s₂.outputs = s₁.outputs := by rw [State.outputs, separated.scope, State.outputs]
  have head := head steps (by omega)
  have rest := rest steps (by omega)
  simp only [Part.Accepted, Parser.openStatement_of_peek known, kind] at head rest ⊢
  rw [separated.accepted run, Outcome.bind_done, bind_accepted head, bind_accepted rest,
    ended_accepted ended, bodyReads.outputs_block, same, outputs]
  rfl

/-- A `while` is accepted with its condition and its body. -/
theorem Part.Complete.whileLoop (known : s.peek = some token) (kind : token.kind = .whileKeyword)
    (expression : Grammar.Reads (.expression .outside 0 condition) s.next s₁)
    (separates : s₁.atSeparator = true)
    (bodyReads : Reads dialect (.block (· == .endKeyword) body) s₁ s₂)
    (ended : s₂.peekKind = some .endKeyword)
    (read : Part.Complete dialect s₁ s₂ (.block (· == .endKeyword) body)) :
    Part.Complete dialect s s₂.next (.openStatement (.whileLoop condition body token.pos)) := by
  have shorter := State.length_next known
  have last := State.length_next_of_peekKind ended
  have first := expression.length_le
  have second := bodyReads.length_le
  simp only [Part.least, Grammar.Phrase.least] at first second
  refine .of_succ (by omega) fun steps fits => ?_
  simp only [Part.Complete, Part.Fits, Part.level] at *
  obtain ⟨run, outputs⟩ := @wholeExpression_accepted _ _ steps _ expression (by omega)
  simp only [Part.Accepted, Parser.openStatement_of_peek known, kind]
  rw [run, Outcome.bind_done, separator_accepted separates,
    body_accepted (read steps (by omega)) ended, outputs]
  rfl

/-- A loop is accepted when its header is read up to its body. -/
theorem Part.Accepted.forLoop {var : Ident} (known : s.peek = some token)
    (kind : token.kind = .forKeyword)
    (run : Parser.forHeader steps s.next = .done (var, range) s₁) (outputs : s₁.outputs = s.outputs)
    (read : Part.Accepted dialect steps s₁ s₂ (.block (· == .endKeyword) body))
    (ended : s₂.peekKind = some .endKeyword) :
    Part.Accepted dialect (steps + 1) s s₂.next
      (.openStatement (.forLoop var range body token.pos)) := by
  simp only [Part.Accepted, Parser.openStatement_of_peek known, kind]
  rw [run, Outcome.bind_done, body_accepted read ended, outputs]
  rfl

/-- A `for` is accepted with its header and its body. -/
theorem Part.Complete.forLoop {var : Ident} (known : s.peek = some token)
    (kind : token.kind = .forKeyword) (bare : s.next.headerEnclosed = false)
    (header : ForHead var range s.next s₁) (separates : s₁.atSeparator = true)
    (bodyReads : Reads dialect (.block (· == .endKeyword) body) s₁ s₂)
    (ended : s₂.peekKind = some .endKeyword)
    (read : Part.Complete dialect s₁ s₂ (.block (· == .endKeyword) body)) :
    Part.Complete dialect s s₂.next (.openStatement (.forLoop var range body token.pos)) := by
  have shorter := State.length_next known
  have last := State.length_next_of_peekKind ended
  have first := header.length_le
  have second := bodyReads.length_le
  simp only [Part.least] at second
  refine .of_succ (by omega) fun steps fits => ?_
  simp only [Part.Complete, Part.Fits, Part.level] at *
  have run := @ForHead.accepted _ _ steps _ _ s.next header (by simp [bare]) (by omega)
  simp only [bare, Bool.false_eq_true, ↓reduceIte] at run
  rw [separator_accepted separates, Parser.pure_apply] at run
  exact .forLoop known kind run header.noted.outputs (read steps (by omega)) ended

/-- A `for` is accepted with a header in parentheses and its body. -/
theorem Part.Complete.forEnclosed {var : Ident} (known : s.peek = some token)
    (kind : token.kind = .forKeyword) (enclosed : s.next.headerEnclosed = true)
    (header : ForHead var range s.next.next s₁) (closes : s₁.peekKind = some .rightParen)
    (separates : s₁.next.atSeparator = true)
    (bodyReads : Reads dialect (.block (· == .endKeyword) body) s₁.next s₂)
    (ended : s₂.peekKind = some .endKeyword)
    (read : Part.Complete dialect s₁.next s₂ (.block (· == .endKeyword) body)) :
    Part.Complete dialect s s₂.next (.openStatement (.forLoop var range body token.pos)) := by
  have shorter := State.length_next known
  have bracket := s.next.length_next_le
  have close := State.length_next_of_peekKind closes
  have last := State.length_next_of_peekKind ended
  have first := header.length_le
  have second := bodyReads.length_le
  simp only [Part.least] at second
  refine .of_succ (by omega) fun steps fits => ?_
  simp only [Part.Complete, Part.Fits, Part.level] at *
  have run := @ForHead.accepted _ _ steps _ _ s.next header (by simp [enclosed]) (by omega)
  simp only [enclosed, ↓reduceIte] at run
  rw [Parser.discard_expect_bind closes, separator_accepted separates, Parser.pure_apply] at run
  exact .forLoop known kind run header.noted.outputs (read steps (by omega)) ended

/-- A `switch` is accepted with its subject and its cases. -/
theorem Part.Complete.switch (known : s.peekKind = some .switchKeyword)
    (expression : Grammar.Reads (.expression .outside 0 subject) s.next s₁)
    (separates : s₁.atSeparator = true) (casesReads : Reads dialect (.cases cases) s₁ s₂)
    (ended : s₂.peekKind = some .endKeyword)
    (read : Part.Complete dialect s₁ s₂ (.cases cases)) :
    Part.Complete dialect s (cases.logged s₂.next) (.openStatement (.switch subject cases)) := by
  have shorter := State.length_next_of_peekKind known
  have last := State.length_next_of_peekKind ended
  have first := expression.length_le
  have second := casesReads.length_le
  have logged := congrArg List.length (Cases.logged_rest s₂.next cases)
  simp only [Part.least, Grammar.Phrase.least] at first second
  refine .of_succ (by omega) fun steps fits => ?_
  simp only [Part.Complete, Part.Fits, Part.level] at *
  obtain ⟨token, found, kind⟩ := State.peek_of_peekKind known
  obtain ⟨run, outputs⟩ := @wholeExpression_accepted _ _ steps _ expression (by omega)
  have chain : Parser.cases steps dialect s₁ = .done (cases.chain s₁.outputs) s₂ :=
    read steps (by omega)
  have tree : (CaseChain.lower subject (.ofClauses (cases.chain s.outputs).1
      (cases.chain s.outputs).2)).statements =
      (Statement.switch subject cases).lower s.outputs := by
    rw [statements_lower, cases.remainder_chain, Statement.lower]
  simp only [Part.Accepted, Parser.openStatement_of_peek found, kind, ← tree]
  rw [run, Outcome.bind_done, separator_accepted separates, bind_accepted chain,
    ended_accepted ended, outputs, State.next_outputs]
  cases cases <;> rfl

/-- A `try` is accepted with its body, if it catches nothing. -/
theorem Part.Complete.tryOnly (known : s.peek = some token) (kind : token.kind = .tryKeyword)
    (bodyReads : Reads dialect (.block Parser.endsTry body) s.next s₁)
    (ended : s₁.peekKind = some .endKeyword)
    (read : Part.Complete dialect s.next s₁ (.block Parser.endsTry body)) :
    Part.Complete dialect s s₁.next (.openStatement (.tryCatch body [] token.pos)) := by
  have shorter := State.length_next known
  have last := State.length_next_of_peekKind ended
  have first := bodyReads.length_le
  simp only [Part.least] at first
  refine .of_succ (by omega) fun steps fits => ?_
  simp only [Part.Complete, Part.Fits, Part.level] at *
  have read := read steps (by omega)
  simp only [Part.Accepted, Parser.openStatement_of_peek known, kind] at read ⊢
  rw [read, Outcome.bind_done, Parser.bind_apply, Parser.consume_apply, if_neg (by simp [ended]),
    Outcome.bind_done, if_neg Bool.false_ne_true, bind_accepted (Parser.pure_apply _ _),
    ended_accepted ended]
  rfl

/-- A `try` is accepted with its body and its handler. -/
theorem Part.Complete.tryCatch (known : s.peek = some token) (kind : token.kind = .tryKeyword)
    (bodyReads : Reads dialect (.block Parser.endsTry body) s.next s₁)
    (catches : s₁.peekKind = some .catchKeyword)
    (handlerReads : Reads dialect (.block (· == .endKeyword) handler) s₁.next s₂)
    (ended : s₂.peekKind = some .endKeyword)
    (head : Part.Complete dialect s.next s₁ (.block Parser.endsTry body))
    (rest : Part.Complete dialect s₁.next s₂ (.block (· == .endKeyword) handler)) :
    Part.Complete dialect s s₂.next (.openStatement (.tryCatch body handler token.pos)) := by
  have shorter := State.length_next known
  have middle := State.length_next_of_peekKind catches
  have last := State.length_next_of_peekKind ended
  have first := bodyReads.length_le
  have second := handlerReads.length_le
  simp only [Part.least] at first second
  refine .of_succ (by omega) fun steps fits => ?_
  simp only [Part.Complete, Part.Fits, Part.level] at *
  have head := head steps (by omega)
  have rest := rest steps (by omega)
  simp only [Part.Accepted, Parser.openStatement_of_peek known, kind] at head rest ⊢
  rw [head, Outcome.bind_done, Parser.bind_apply, Parser.consume_apply, if_pos catches,
    Outcome.bind_done, if_pos rfl, bind_accepted rest, ended_accepted ended]
  simp only [State.next_outputs, bodyReads.outputs_block]
  rfl

/-- A declaration of globals is accepted with their names. -/
theorem Part.Complete.global {name : Ident} {names : List Ident} (known : s.peek = some token)
    (kind : token.kind = .globalKeyword) (reads : Names (name :: names) s.next s₁) :
    Part.Complete dialect s s₁ (.openStatement (.global (name :: names) token.pos)) := by
  have shorter := State.length_next known
  have first := reads.length_le
  simp only [List.length_cons] at first
  refine .of_succ (by omega) fun steps fits => ?_
  simp only [Part.Fits, Part.level] at fits
  have run : Parser.globalNames steps s.next = .done (name :: names) s₁ :=
    globalNames_accepted reads (by omega)
  simp only [Part.Accepted, Parser.openStatement_of_peek known, kind]
  rw [run, Outcome.bind_done]
  rfl

/-- An `else` is accepted with its body. -/
theorem Part.Complete.otherwiseTail (known : s.peekKind = some .elseKeyword)
    (bodyReads : Reads dialect (.block (· == .endKeyword) body) s.next s₁)
    (read : Part.Complete dialect s.next s₁ (.block (· == .endKeyword) body)) :
    Part.Complete dialect s s₁ (.tail (.otherwise body)) := by
  obtain ⟨token, found, kind⟩ := State.peek_of_peekKind known
  have shorter := State.length_next found
  have order := bodyReads.reaches.length_le
  refine .of_succ (by omega) fun steps fits => ?_
  simp only [Part.Complete, Part.Fits, Part.level] at *
  have read := read steps (by omega)
  simp only [Part.Accepted, Parser.elseBranch_of_peek found, kind] at read ⊢
  rw [read, Outcome.bind_done]
  rfl

/-- An `elseif` is accepted with its condition, its body and what follows the body. -/
theorem Part.Complete.branchTail (known : s.peek = some token)
    (kind : token.kind = .elseIfKeyword)
    (expression : Grammar.Reads (.expression .outside 0 condition) s.next s₁)
    (separates : s₁.atSeparator = true)
    (bodyReads : Reads dialect (.block Parser.endsBranch body) s₁ s₂)
    (tailReads : Reads dialect (.tail tail) s₂ s₃)
    (head : Part.Complete dialect s₁ s₂ (.block Parser.endsBranch body))
    (rest : Part.Complete dialect s₂ s₃ (.tail tail)) :
    Part.Complete dialect s s₃ (.tail (.branch condition body tail token.pos)) := by
  have shorter := State.length_next known
  have first := expression.length_le
  have second := bodyReads.length_le
  have third := tailReads.length_le
  simp only [Part.least, Grammar.Phrase.least] at first second third
  refine .of_succ (by omega) fun steps fits => ?_
  simp only [Part.Complete, Part.Fits, Part.level] at *
  obtain ⟨run, outputs⟩ := @wholeExpression_accepted _ _ steps _ expression (by omega)
  have head := head steps (by omega)
  have rest := rest steps (by omega)
  simp only [Part.Accepted, Parser.elseBranch_of_peek known, kind] at head rest ⊢
  rw [run, Outcome.bind_done, separator_accepted separates, bind_accepted head,
    bind_accepted rest, bodyReads.outputs_block, outputs]
  rfl

/-- An `otherwise` is accepted with its body. -/
theorem Part.Complete.otherwiseCases
    (known : s.skipSeparators.peekKind = some .otherwiseKeyword)
    (bodyReads : Reads dialect (.block (· == .endKeyword) body) s.skipSeparators.next s₁)
    (read : Part.Complete dialect s.skipSeparators.next s₁ (.block (· == .endKeyword) body)) :
    Part.Complete dialect s s₁ (.cases (.otherwise body)) := by
  obtain ⟨token, found, kind⟩ := State.peek_of_peekKind known
  have skipped := s.length_skipSeparators
  have shorter := State.length_next found
  have order := bodyReads.reaches.length_le
  refine .of_succ (by omega) fun steps fits => ?_
  simp only [Part.Complete, Part.Fits, Part.level] at *
  have read := read steps (by omega)
  simp only [Part.Accepted, Parser.cases_of_peek found, kind] at read ⊢
  rw [read, Outcome.bind_done]
  rfl

/-- A `case` is accepted with its value, its body and the cases behind it. -/
theorem Part.Complete.caseCases (known : s.skipSeparators.peek = some token)
    (kind : token.kind = .caseKeyword)
    (expression : Grammar.Reads (.expression .outside 0 value) s.skipSeparators.next s₁)
    (separates : s₁.atSeparator = true)
    (bodyReads : Reads dialect (.block Parser.endsCase body) s₁ s₂)
    (casesReads : Reads dialect (.cases cases) s₂ s₃)
    (head : Part.Complete dialect s₁ s₂ (.block Parser.endsCase body))
    (rest : Part.Complete dialect s₂ s₃ (.cases cases)) :
    Part.Complete dialect s s₃ (.cases (.case value body cases token.pos)) := by
  have skipped := s.length_skipSeparators
  have shorter := State.length_next known
  have first := expression.length_le
  have second := bodyReads.length_le
  have third := casesReads.length_le
  simp only [Part.least, Grammar.Phrase.least] at first second third
  refine .of_succ (by omega) fun steps fits => ?_
  simp only [Part.Complete, Part.Fits, Part.level] at *
  obtain ⟨run, outputs⟩ := @wholeExpression_accepted _ _ steps _ expression (by omega)
  have head := head steps (by omega)
  have rest := rest steps (by omega)
  simp only [Part.Accepted, Parser.cases_of_peek known, kind] at head rest ⊢
  rw [run, Outcome.bind_done, separator_accepted separates, bind_accepted head,
    bind_accepted rest, bodyReads.outputs_block, outputs]
  rfl

/-- At the top of a program a statement is read, and then the rest. -/
theorem topLevel_of_statement {kind : Kind} (known : s.skipSeparators.peekKind = some kind)
    (plain : kind.isBlockKeyword = false)
    (head : Part.Accepted dialect steps s.skipSeparators s₁ (.statement written)) :
    Parser.topLevel (steps + 1) dialect s =
      (Parser.topLevel steps dialect s₁).bind fun later =>
        pure (written.lower s.outputs ++ later) := by
  obtain ⟨token, found, rfl⟩ := State.peek_of_peekKind known
  have noFunction : token.kind ≠ .functionKeyword := by
    intro same
    rw [same] at plain
    cases plain
  simp only [Part.Accepted, Parser.topLevel_succ, found, noFunction, plain, Bool.false_eq_true,
    ↓reduceIte] at head ⊢
  rw [head, Outcome.bind_done, State.skipSeparators_outputs]
  rfl

/-- The top of a program is accepted from a statement on. -/
theorem Part.Complete.item {items : List Item} {kind : Kind}
    (known : s.skipSeparators.peekKind = some kind) (plain : kind.isBlockKeyword = false)
    (headReads : Reads dialect (.statement written) s.skipSeparators s₁)
    (tailReads : Reads dialect (.items items) s₁ s₂)
    (head : Part.Complete dialect s.skipSeparators s₁ (.statement written))
    (tail : Part.Complete dialect s₁ s₂ (.items items)) :
    Part.Complete dialect s s₂ (.items (.statement written :: items)) := by
  have skipped := s.length_skipSeparators
  have first := headReads.length_le
  have second := tailReads.length_le
  simp only [Part.least] at first second
  refine .of_succ (by omega) fun steps fits outside => ?_
  simp only [Part.Complete, Part.Fits, Part.level] at *
  have none : s.outputs = [] := by simp [State.outputs, outside]
  have rest := tail steps (by omega) (scope_of_outside outside headReads.noted)
  rw [topLevel_of_statement known plain (head steps (by omega)), rest, Outcome.bind_done, none]
  rfl

/-- The top of a program is accepted from a function on, which is closed with what its body has
noted about it. -/
theorem Part.Complete.function {head : Header} {items : List Item} {event : Event}
    (known : s.skipSeparators.peek = some token) (kind : token.kind = .functionKeyword)
    (headReads : Head token.pos head s.skipSeparators.next s₁)
    (bodyReads : Reads dialect (.block Parser.endsFunction body) (s₁.enter head) s₂)
    (tailReads : Reads dialect (.items items) (s₂.leave.log event) s₃)
    (same : event = .functionClosed head.name.name
      (closed head (lowerAll head.outputs body)).length s₂.usesNargin)
    (inner : Part.Complete dialect (s₁.enter head) s₂ (.block Parser.endsFunction body))
    (tail : Part.Complete dialect (s₂.leave.log event) s₃ (.items items)) :
    Part.Complete dialect s s₃
      (.items (.function { head with usesNargin := s₂.usesNargin } body :: items)) := by
  have skipped := s.length_skipSeparators
  have shorter := State.length_next known
  have first := headReads.length_le
  have second := bodyReads.length_le
  have left := (State.Reaches.refl s₂).leave.length_le
  have third := tailReads.length_le
  simp only [Part.least, State.enter_rest, State.log_rest] at second third
  refine .of_succ (by omega) fun steps fits _ => ?_
  simp only [Part.Complete, Part.Fits, Part.level, State.enter_rest, State.log_rest] at *
  have run : Parser.functionHead steps token.pos s.skipSeparators.next = .done head s₁ :=
    headReads.accepted (by omega)
  have inner := inner steps (by omega)
  have rest := tail steps (by omega) s₂.leave_scope
  obtain ⟨scope, -⟩ := State.Notes.usesNargin (s := s₁.enter head) rfl bodyReads.noted
  have outputs : (s₁.enter head).outputs = head.outputs := rfl
  have whole : Parser.function steps dialect token.pos s.skipSeparators.next = .done
      (.mk { head with usesNargin := s₂.usesNargin } (closed head (lowerAll head.outputs body)))
      (s₂.leave.log event) := by
    rw [Parser.function_apply]
    refine Outcome.bind_eq_done.mpr ⟨_, _, run, Outcome.bind_eq_done.mpr ⟨_, _, inner, ?_⟩⟩
    simp only [scope, Option.getD_some, close_eq, outputs, same]
    rfl
  simp only [Parser.topLevel_succ, known, kind, ↓reduceIte]
  rw [whole, Outcome.bind_done, bind_accepted rest]
  rfl

end Parts

/-- Every part that the rules read in a dialect is accepted with enough steps. -/
theorem Reads.complete {part : Part} (reads : Reads dialect part s final) :
    part.Complete dialect s final := by
  induction reads with
  | @blockEnd ends s ended =>
    exact .of_succ s.length_skipSeparators fun _ _ => .blockEnd ended
  | block known goes plain headReads tailReads head tail =>
    exact .block known goes plain headReads tailReads head tail
  | statement headReads terminates head => exact .statement headReads terminates head
  | eval plain noCommand expression noAssign => exact .eval plain noCommand expression noAssign
  | assign plain noCommand leftReads sign kind valueReads sort =>
    exact .assign plain noCommand leftReads sign kind valueReads sort
  | command plain lenient begins run =>
    have reads : Reads dialect _ _ _ := .command plain lenient begins run
    exact .of_succ reads.reaches.length_le fun _ _ => .command plain lenient begins run
  | branch known kind expression separated bodyReads tailReads ended head rest =>
    exact .branch known kind expression separated bodyReads tailReads ended head rest
  | whileLoop known kind expression separates bodyReads ended read =>
    exact .whileLoop known kind expression separates bodyReads ended read
  | forLoop known kind bare header separates bodyReads ended read =>
    exact .forLoop known kind bare header separates bodyReads ended read
  | forEnclosed known kind enclosed header closes separates bodyReads ended read =>
    exact .forEnclosed known kind enclosed header closes separates bodyReads ended read
  | switch known expression separates casesReads ended read =>
    exact .switch known expression separates casesReads ended read
  | tryOnly known kind bodyReads ended read => exact .tryOnly known kind bodyReads ended read
  | tryCatch known kind bodyReads catches handlerReads ended head rest =>
    exact .tryCatch known kind bodyReads catches handlerReads ended head rest
  | global known kind reads => exact .global known kind reads
  | @breakLoop _ s known kind | @continueLoop _ s known kind | @leave _ s known kind =>
    refine .of_succ s.length_next_le fun _ _ => ?_
    simp only [Part.Accepted, Parser.openStatement_of_peek known, kind]
    rfl
  | noTail noElseIf noElse =>
    exact .of_succ (Nat.le_refl _) fun _ _ => Parser.elseBranch_of_ne noElseIf noElse
  | otherwiseTail known bodyReads read => exact .otherwiseTail known bodyReads read
  | branchTail known kind expression separates bodyReads tailReads head rest =>
    exact .branchTail known kind expression separates bodyReads tailReads head rest
  | @noCases s noCase noOtherwise =>
    exact .of_succ s.length_skipSeparators fun _ _ => Parser.cases_of_ne noCase noOtherwise
  | otherwiseCases known bodyReads read => exact .otherwiseCases known bodyReads read
  | caseCases known kind expression separates bodyReads casesReads head rest =>
    exact .caseCases known kind expression separates bodyReads casesReads head rest
  | @noItems s known =>
    refine .of_succ s.length_skipSeparators fun _ _ _ => ?_
    simp only [Parser.topLevel_succ, known]
    rfl
  | item known plain headReads tailReads head tail =>
    exact .item known plain headReads tailReads head tail
  | function known kind headReads bodyReads tailReads same inner tail =>
    exact .function known kind headReads bodyReads tailReads same inner tail

/-- What the rules read in a dialect is accepted with enough steps. -/
theorem Reads.accepted {part : Part} (reads : Reads dialect part s final)
    (fits : part.Fits s final steps) : part.Accepted dialect steps s final :=
  reads.complete steps fits

/-- What is read of tokens in which the rules read statements and functions to the end: their tree,
and the events of the rules. -/
theorem reading_accepted {tokens : List Token} {items : List Item}
    (reads : Reads dialect (.items items) (.start tokens) final) (ended : final.rest = [])
    (sound : tokens.find? (·.kind == .error) = none) :
    Reading.ofTokens dialect tokens =
      ⟨some (.ok ⟨items.flatMap Item.lower⟩), .started tokens.length dialect ::
        (.finished (items.flatMap Item.lower).length :: final.events).reverse⟩ := by
  have run : Parser.topLevel (Parser.steps tokens) dialect (.start tokens) =
      .done (items.flatMap Item.lower) final := by
    refine reads.accepted ?_ rfl
    simp only [Part.Fits, Part.level, Parser.steps, State.start, ended, List.length_nil]
    omega
  have program : Parser.program dialect (.start tokens) =
      .done ⟨items.flatMap Item.lower⟩ final := by
    rw [Parser.program]
    exact Outcome.bind_eq_done.mpr ⟨_, _, run, rfl⟩
  simp only [Reading.ofTokens, sound, program, Reading.ofOutcome]

/-- Statements and functions that the rules read in a program to its end are its tree. -/
theorem program_accepted {tokens : List Token} {items : List Item}
    (reads : Reads dialect (.items items) (.start tokens) final) (ended : final.rest = [])
    (sound : tokens.find? (·.kind == .error) = none) :
    Program.ofTokens dialect tokens = some (.ok ⟨items.flatMap Item.lower⟩) :=
  congrArg Reading.result (reading_accepted reads ended sound)

end Surface

end MatlabFront
