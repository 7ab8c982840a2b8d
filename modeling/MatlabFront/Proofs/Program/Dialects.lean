import MatlabFront.Proofs.Program.Complete

/-!
# The strict dialect within the lenient one

Every strict program is a lenient program with the same tree. For that, no statement that the strict
dialect accepts may look like a command: behind the name of a command stands a word, and a name with
a word behind it is no whole statement. Conversely the lenient dialect reports an event wherever it
goes beyond the strict one, so a lenient program without such an event is a strict program.
-/

namespace MatlabFront

/-- An event that is reported only where the lenient dialect reads what the strict one refuses: a
command, or tokens that are skipped behind a condition. -/
def Event.isLenient : Event → Bool
  | .command .. | .resynchronized .. => true
  | _ => false

namespace Command

/-- Where a command begins, a word stands behind a name. -/
theorem rest_of_begins {tokens : List Token} (begins : Command.begins tokens = true) :
    ∃ name word later, tokens = name :: word :: later ∧ name.kind = .ident ∧
      word.kind.startsWord = true := by
  match tokens with
  | [] => cases begins
  | [name] => simp [Command.begins, words] at begins
  | name :: word :: later =>
    unfold Command.begins words at begins
    by_cases starts : word.kind.startsWord = true
    · simp only [starts, ↓reduceIte, Bool.and_eq_true, beq_iff_eq] at begins
      exact ⟨name, word, later, rfl, begins.1.1.1, starts⟩
    · simp [starts] at begins

end Command

/-- A word of a command is no operator. -/
theorem Kind.operatorless_of_startsWord {kind : Kind} (starts : kind.startsWord = true) :
    kind.postfixOperator? = none ∧ kind.infixOperator? = none := by
  cases kind <;> first | exact ⟨rfl, rfl⟩ | cases starts

/-- A word of a command neither ends a statement nor assigns. -/
theorem Kind.goes_of_startsWord {kind : Kind} (starts : kind.startsWord = true) :
    kind ≠ .assign ∧ (kind.isSeparator || kind.isBlockKeyword) = false := by
  cases kind <;> first | exact ⟨by decide, rfl⟩ | cases starts

namespace Grammar

variable {s final : State}

/-- Where a name comes next, the operand is that name. -/
theorem Reads.operand_of_ident {nesting : Nesting} {left : Expr} {name : Token}
    (reads : Reads (.operand nesting left) s final) (first : s.peek = some name)
    (named : name.kind = .ident) : final = s.next.note name.text := by
  cases reads with
  | ident known =>
    obtain rfl := Option.some.inj (first.symm.trans known)
    rfl
  | unary known entry =>
    obtain rfl := Option.some.inj (first.symm.trans known)
    simp [named, Kind.unaryOperator?] at entry
  | number known kind | string known kind | lastIndex known kind | colon known kind
  | ignored known kind | atSign known kind | parens known kind | matrix known kind
  | cell known kind =>
    obtain rfl := Option.some.inj (first.symm.trans known)
    cases named.symm.trans kind

/-- Where a word stands behind a name, the expression is the name. -/
theorem Reads.rest_of_word {power : Nat} {whole : Expr} {name word : Token} {later : List Token}
    (reads : Reads (.expression .outside power whole) s final)
    (rest : s.rest = name :: word :: later) (named : name.kind = .ident)
    (starts : word.kind.startsWord = true) : final.peekKind = some word.kind := by
  obtain ⟨first, behind⟩ := State.peek_of_rest rest
  cases reads with
  | expression operand operators =>
    obtain rfl := operand.operand_of_ident first named
    have here : (s.next.note name.text).peek = some word := by
      simp [State.peek, State.note_rest, behind]
    obtain ⟨noPostfix, noInfix⟩ := Kind.operatorless_of_startsWord starts
    cases operators with
    | stop => exact State.peekKind_of_peek here
    | postfixed known _ entry =>
      obtain rfl := Option.some.inj (here.symm.trans known)
      cases noPostfix.symm.trans entry
    | infixed known _ entry =>
      obtain rfl := Option.some.inj (here.symm.trans known)
      cases noInfix.symm.trans entry

/-- Where a command begins, the expression is the name of the command. -/
theorem Reads.rest_of_begins {power : Nat} {whole : Expr}
    (reads : Reads (.expression .outside power whole) s final)
    (begins : Command.begins s.rest = true) :
    ∃ kind : Kind, kind.startsWord = true ∧ final.peekKind = some kind := by
  obtain ⟨name, word, later, rest, named, starts⟩ := Command.rest_of_begins begins
  exact ⟨word.kind, starts, reads.rest_of_word rest named starts⟩

/-- An expression reports no event. -/
theorem Reads.events {phrase : Phrase} (reads : Reads phrase s final) :
    final.events = s.events := by
  induction reads with
  | stop => rfl
  | ident => exact State.note_events _ _
  | expression _ _ head tail | postfixed _ _ _ _ _ _ head tail | infixed _ _ _ _ _ _ head tail
  | lambda _ _ _ head tail | element _ _ _ _ _ head tail | argument _ _ _ head tail =>
    exact tail.trans head
  | unary _ _ _ _ head | atSign _ _ _ head | parens _ _ _ _ head | matrix _ _ _ head
  | cell _ _ _ head | rowEnd _ _ _ _ head | comma _ _ _ head | call _ _ _ head
  | cellIndex _ _ _ head | dynamic _ _ _ _ _ head | arguments _ _ head | lastArgument _ _ _ head
  | parameters _ _ _ head | parameter _ _ _ head => exact head
  | number | string | lastIndex | colon | ignored | named | close | member | transpose
  | noArguments | noParameters | lastParameter => rfl

end Grammar

namespace State

/-- The events between two states: without a lenient one among them something holds, and the strict
dialect has no lenient one. -/
def Reports (s : State) (dialect : Dialect) (strict : Prop) (final : State) : Prop :=
  ∃ reported, final.events = reported ++ s.events ∧
    ((∀ event ∈ reported, event.isLenient = false) → strict) ∧
    (dialect = .strict → ∀ event ∈ reported, event.isLenient = false)

variable {dialect : Dialect} {s s₁ s₂ : State} {first second : Prop}

/-- Where no event is reported, what holds does not depend on one. -/
theorem Reports.silent (same : s₁.events = s.events) (strict : first) :
    s.Reports dialect first s₁ :=
  ⟨[], same, fun _ => strict, by simp⟩

/-- The events of two parts. -/
theorem Reports.trans (head : s.Reports dialect first s₁) (tail : s₁.Reports dialect second s₂) :
    s.Reports dialect (first ∧ second) s₂ := by
  obtain ⟨early, before, strictFirst, quietFirst⟩ := head
  obtain ⟨late, behind, strictSecond, quietSecond⟩ := tail
  refine ⟨late ++ early, by rw [behind, before, List.append_assoc], ?_, fun strict => ?_⟩
  · intro quiet
    rw [List.forall_mem_append] at quiet
    exact ⟨strictFirst quiet.2, strictSecond quiet.1⟩
  · exact List.forall_mem_append.mpr ⟨quietSecond strict, quietFirst strict⟩

/-- What holds without a lenient event has consequences. -/
theorem Reports.imp (reports : s.Reports dialect first s₁) (imp : first → second) :
    s.Reports dialect second s₁ := by
  obtain ⟨reported, events, strict, quiet⟩ := reports
  exact ⟨reported, events, imp ∘ strict, quiet⟩

/-- The events in front of tokens that are read without one. -/
theorem Reports.before (reports : s.Reports dialect first s₁) (same : s₂.events = s₁.events) :
    s.Reports dialect first s₂ := by
  obtain ⟨reported, events, rest⟩ := reports
  exact ⟨reported, same.trans events, rest⟩

/-- The events behind tokens that are read without one. -/
theorem Reports.behind (reports : s₁.Reports dialect first s₂) (same : s₁.events = s.events) :
    s.Reports dialect first s₂ := by
  obtain ⟨reported, events, rest⟩ := reports
  exact ⟨reported, by rw [events, same], rest⟩

/-- An event that both dialects have is reported last. -/
theorem Reports.log (reports : s.Reports dialect first s₁) {event : Event}
    (common : event.isLenient = false) : s.Reports dialect first (s₁.log event) := by
  obtain ⟨reported, events, strict, quiet⟩ := reports
  refine ⟨event :: reported, by simp [State.log, events], ?_, ?_⟩
  · exact fun all => strict (List.forall_mem_cons.mp all).2
  · exact fun same => List.forall_mem_cons.mpr ⟨common, quiet same⟩

end State

namespace Surface

variable {dialect : Dialect} {s final : State}

/-- What a strict part is in the lenient dialect. A statement counts only where it ends. -/
def Part.Lenient (s final : State) : Part → Prop
  | .openStatement written =>
    final.atTerminator = true → Reads .matlab (.openStatement written) s final
  | part => Reads .matlab part s final

/-- A statement that ends where it ends does not begin like a command. -/
theorem no_command_of_terminator {expr : Expr}
    (reads : Grammar.Reads (.expression .outside 0 expr) s final)
    (terminates : final.atTerminator = true) : Command.begins s.rest = false := by
  rw [Bool.eq_false_iff]
  intro begins
  obtain ⟨kind, starts, here⟩ := reads.rest_of_begins begins
  rw [State.atTerminator, here, Option.all_some, (Kind.goes_of_startsWord starts).2] at terminates
  cases terminates

/-- The left side of an assignment does not begin like a command. -/
theorem no_command_of_assign {left : Expr} {token : Token}
    (reads : Grammar.Reads (.expression .outside 0 left) s final)
    (sign : final.peek = some token) (assigns : token.kind = .assign) :
    Command.begins s.rest = false := by
  rw [Bool.eq_false_iff]
  intro begins
  obtain ⟨kind, starts, here⟩ := reads.rest_of_begins begins
  rw [State.peekKind_of_peek sign, assigns] at here
  exact (Kind.goes_of_startsWord starts).1 (Option.some.inj here).symm

/-- What is read in the strict dialect is read in the lenient one. -/
theorem Reads.lenient {part : Part} (reads : Reads .strict part s final) :
    part.Lenient s final := by
  induction reads with
  | blockEnd ended => exact .blockEnd ended
  | block known goes plain _ _ head tail => exact .block known goes plain head tail
  | statement _ terminates head => exact .statement (head terminates) terminates
  | eval plain _ expression noAssign =>
    intro terminates
    exact .eval plain (.inr (no_command_of_terminator expression terminates)) expression noAssign
  | assign plain _ left sign kind value sort =>
    intro _
    exact .assign plain (.inr (no_command_of_assign left sign kind)) left sign kind value sort
  | command _ lenient => cases lenient
  | branch known kind condition separated _ _ ended body tail =>
    intro _
    cases separated with
    | separator separates =>
      exact .branch known kind condition (.separator separates) body tail ended
    | resumed _ lenient => cases lenient
  | whileLoop known kind condition separates _ ended body =>
    exact fun _ => .whileLoop known kind condition separates body ended
  | forLoop known kind bare head separates _ ended body =>
    exact fun _ => .forLoop known kind bare head separates body ended
  | forEnclosed known kind enclosed head closes separates _ ended body =>
    exact fun _ => .forEnclosed known kind enclosed head closes separates body ended
  | switch known subject separates _ ended cases =>
    exact fun _ => .switch known subject separates cases ended
  | tryOnly known kind _ ended body => exact fun _ => .tryOnly known kind body ended
  | tryCatch known kind _ catches _ ended body handler =>
    exact fun _ => .tryCatch known kind body catches handler ended
  | global known kind names => exact fun _ => .global known kind names
  | breakLoop known kind => exact fun _ => .breakLoop known kind
  | continueLoop known kind => exact fun _ => .continueLoop known kind
  | leave known kind => exact fun _ => .leave known kind
  | noTail noElseIf noElse => exact .noTail noElseIf noElse
  | otherwiseTail known _ body => exact .otherwiseTail known body
  | branchTail known kind condition separates _ _ body tail =>
    exact .branchTail known kind condition separates body tail
  | noCases noCase noOtherwise => exact .noCases noCase noOtherwise
  | otherwiseCases known _ body => exact .otherwiseCases known body
  | caseCases known kind value separates _ _ body cases =>
    exact .caseCases known kind value separates body cases
  | noItems known => exact .noItems known
  | item known plain _ _ head tail => exact .item known plain head tail
  | function known kind head _ _ same body tail => exact .function known kind head body tail same

/-- The event of a switch is one of both dialects. -/
theorem Cases.logged_reports {strict : Prop} {s₁ : State} (cases : Cases)
    (reports : s.Reports dialect strict s₁) : s.Reports dialect strict (cases.logged s₁) := by
  cases cases with
  | case => exact reports.log rfl
  | none | otherwise => exact reports

/-- Reading names reports nothing. -/
theorem Names.events {names : List Ident} (reads : Names names s final) :
    final.events = s.events := by
  induction reads with
  | stop => rfl
  | name _ _ _ tail => rw [tail, State.note_events, State.next_events]

/-- Reading the header of a `for` reports nothing. -/
theorem ForHead.events {var : Ident} {range : Expr} (reads : ForHead var range s final) :
    final.events = s.events := by
  cases reads with
  | mk _ _ _ _ expression =>
    rw [expression.events, State.next_events, State.note_events, State.next_events]

/-- Reading outputs in brackets reports nothing. -/
theorem BracketedOutputs.events {names : List Ident} (reads : BracketedOutputs names s final) :
    final.events = s.events := by
  induction reads with
  | close => rfl
  | comma _ _ tail | name _ _ _ tail => exact tail

/-- Reading the head of a function reports nothing. -/
theorem Head.events {pos : Position} {head : Header} (reads : Head pos head s final) :
    final.events = s.events := by
  cases reads with
  | @mk outputs params token _ s₁ _ declares _ _ takes =>
    have before : s₁.events = s.events := by
      cases declares with
      | bracketed _ names => exact names.events
      | single | none => rfl
    cases takes with
    | list _ params => exact params.events.trans before
    | none => exact before

/-- Leaving a function reports nothing. -/
theorem leave_events (s : State) : s.leave.events = s.events := by
  unfold State.leave
  dsimp only
  split <;> rfl

/-- What is skipped behind a condition is reported, as long as a token is left. -/
theorem Separated.reports (separated : Separated dialect s final) (alive : s.rest ≠ []) :
    s.Reports dialect (s.atSeparator = true ∧ s = final) final := by
  cases separated with
  | separator separates => exact .silent rfl ⟨separates, rfl⟩
  | resumed _ lenient =>
    obtain ⟨token, later, rest⟩ := List.exists_cons_of_ne_nil alive
    have known : s.peek = some token := (State.peek_of_rest rest).1
    refine ⟨[.resynchronized token.pos.line token.text], ?_, fun quiet => ?_, fun strict => ?_⟩
    · simp [State.resume, known, State.skip, State.log]
    · simp [Event.isLenient] at quiet
    · cases lenient.symm.trans strict

/-- A part of a program without a lenient event among its events is one of a strict program. -/
theorem Reads.reports {part : Part} (reads : Reads dialect part s final) :
    s.Reports dialect (Reads .strict part s final) final := by
  induction reads with
  | blockEnd ended => exact .silent rfl (.blockEnd ended)
  | block known goes plain _ _ head tail =>
    exact (State.Reports.trans (.behind head rfl) tail).imp fun ⟨first, later⟩ =>
      .block known goes plain first later
  | statement _ terminates head => exact State.Reports.imp head (.statement · terminates)
  | eval plain _ expression noAssign =>
    exact .silent expression.events (.eval plain (.inl rfl) expression noAssign)
  | assign plain _ left sign kind value sort =>
    exact .silent (value.events.trans left.events)
      (.assign plain (.inl rfl) left sign kind value sort)
  | command _ lenient _ run =>
    obtain ⟨_, _, -, command⟩ := Parser.command_takes run
    refine ⟨[_], command.events, fun quiet => ?_, fun strict => ?_⟩
    · simp [Event.isLenient] at quiet
    · cases lenient.symm.trans strict
  | branch known kind condition separated bodyReads tailReads ended body tail =>
    -- Behind a condition at the end of the input the closing keyword would be missing.
    have alive := State.length_next_of_peekKind ended
    have shrinks := tailReads.length_le
    have bodyShrinks := bodyReads.length_le
    have between := separated.reaches.length_le
    have reported := separated.reports (List.ne_nil_of_length_pos (by omega))
    have whole := (State.Reports.behind reported condition.events).trans (body.trans tail)
    refine State.Reports.imp (.before whole rfl) ?_
    rintro ⟨⟨separates, rfl⟩, first, later⟩
    exact .branch known kind condition (.separator separates) first later ended
  | whileLoop known kind condition separates _ ended body =>
    exact (State.Reports.behind (.before body rfl) condition.events).imp
      (.whileLoop known kind condition separates · ended)
  | forLoop known kind bare head separates _ ended body =>
    exact (State.Reports.behind (.before body rfl) head.events).imp
      (.forLoop known kind bare head separates · ended)
  | forEnclosed known kind enclosed head closes separates _ ended body =>
    exact (State.Reports.behind (.before body rfl) head.events).imp
      (.forEnclosed known kind enclosed head closes separates · ended)
  | switch known subject separates _ ended cases =>
    refine Cases.logged_reports _ (.before ?_ rfl)
    exact (State.Reports.behind cases subject.events).imp
      (.switch known subject separates · ended)
  | tryOnly known kind _ ended body =>
    exact (State.Reports.before (.behind body rfl) rfl).imp (.tryOnly known kind · ended)
  | tryCatch known kind _ catches _ ended body handler =>
    have whole := State.Reports.trans (.behind body rfl) (.behind handler rfl)
    exact (State.Reports.before whole rfl).imp fun ⟨first, later⟩ =>
      .tryCatch known kind first catches later ended
  | global known kind names => exact .silent names.events (.global known kind names)
  | breakLoop known kind => exact .silent rfl (.breakLoop known kind)
  | continueLoop known kind => exact .silent rfl (.continueLoop known kind)
  | leave known kind => exact .silent rfl (.leave known kind)
  | noTail noElseIf noElse => exact .silent rfl (.noTail noElseIf noElse)
  | otherwiseTail known _ body =>
    exact State.Reports.imp (.behind body rfl) (.otherwiseTail known ·)
  | branchTail known kind condition separates _ _ body tail =>
    exact (State.Reports.behind (body.trans tail) condition.events).imp fun ⟨first, later⟩ =>
      .branchTail known kind condition separates first later
  | noCases noCase noOtherwise => exact .silent rfl (.noCases noCase noOtherwise)
  | otherwiseCases known _ body =>
    exact State.Reports.imp (.behind body rfl) (.otherwiseCases known ·)
  | caseCases known kind value separates _ _ body cases =>
    exact (State.Reports.behind (body.trans cases) value.events).imp fun ⟨first, later⟩ =>
      .caseCases known kind value separates first later
  | noItems known => exact .silent rfl (.noItems known)
  | item known plain _ _ head tail =>
    exact (State.Reports.trans (.behind head rfl) tail).imp fun ⟨first, later⟩ =>
      .item known plain first later
  | @function head body items token event s s₁ s₂ s₃ known kind headReads _ _ same body tail =>
    -- The body stands between the events that open and close the function.
    have opened : s.Reports dialect True (s₁.enter head) :=
      ((State.Reports.silent headReads.events trivial).log rfl).before rfl
    have closed : s₂.Reports dialect True (s₂.leave.log event) :=
      (State.Reports.silent (leave_events s₂) trivial).log (by rw [same]; rfl)
    exact ((opened.trans body).trans (closed.trans tail)).imp fun ⟨⟨_, first⟩, _, later⟩ =>
      .function known kind headReads first later same

end Surface

/-- A program is strict exactly when it is a lenient program, with the same tree at the same
positions, and the lenient dialect reports no command and no skipped tokens in it. -/
theorem Program.strict_iff_quiet (tokens : List Token) (program : Program) :
    Program.ofTokens .strict tokens = some (.ok program) ↔
      Program.ofTokens .matlab tokens = some (.ok program) ∧
        ∀ event ∈ (Reading.ofTokens .matlab tokens).events, event.isLenient = false := by
  have events {items : List Surface.Item} {final : State}
      (reads : Surface.Reads .matlab (.items items) (.start tokens) final)
      (ended : final.rest = []) (sound : tokens.find? (·.kind == .error) = none) :
      (∀ event ∈ (Reading.ofTokens .matlab tokens).events, event.isLenient = false) ↔
        ∀ event ∈ final.events, event.isLenient = false := by
    have started : (Event.started tokens.length .matlab).isLenient = false := rfl
    have finished (count : Nat) : (Event.finished count).isLenient = false := rfl
    rw [Surface.reading_accepted reads ended sound]
    simp only [List.mem_cons, List.mem_reverse, forall_eq_or_imp, started, finished, true_and]
  constructor
  · intro accepted
    obtain ⟨items, final, reads, ended, tree⟩ := Surface.program_sound accepted
    have sound := Surface.sound_of_accepted accepted
    have lenient := reads.lenient
    refine ⟨?_, (events lenient ended sound).mpr ?_⟩
    · rw [Surface.program_accepted lenient ended sound, ← tree]
    · obtain ⟨reported, same, -, quiet⟩ := reads.reports
      rw [same]
      simpa [State.start] using quiet rfl
  · rintro ⟨accepted, quiet⟩
    obtain ⟨items, final, reads, ended, tree⟩ := Surface.program_sound accepted
    have sound := Surface.sound_of_accepted accepted
    obtain ⟨reported, same, strict, -⟩ := reads.reports
    have none : reported = final.events := by simp [same, State.start]
    rw [events reads ended sound, ← none] at quiet
    rw [Surface.program_accepted (strict quiet) ended sound, ← tree]

end MatlabFront
