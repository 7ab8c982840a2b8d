import MatlabFront.Proofs.Program.Fork
import MatlabFront.Proofs.Program.Progress

/-!
# What is read over behind a condition

The lenient dialect reads over tokens in one place only: behind the condition of an `if`, when that
does not end at a separator. The tokens that it reads over are the longest run in which nothing
begins a statement, separates statements or ends a block. It might as well have found a separator in
their place: with a newline instead of them the program is the same, or it is refused as well.
-/

namespace MatlabFront

open Surface

/-- The tokens between two indices satisfy something, and the token behind them does not. -/
structure LongestRun (tokens : List Token) (first stop : Nat) (passes : Token → Prop) : Prop where
  order : first ≤ stop
  bound : stop ≤ tokens.length
  inside : ∀ token ∈ (tokens.take stop).drop first, passes token
  maximal : ∀ token, tokens[stop]? = some token → ¬passes token

/-- Nothing goes on at a token: it neither begins a statement, nor separates statements, nor ends a
block. -/
def Token.IsStray (token : Token) : Prop :=
  token.kind.startsStatement = false ∧ token.kind.isSeparator = false ∧
    token.kind.isBlockKeyword = false

/-- A token is stray when the lenient dialect reads over it. -/
theorem Token.isStray_iff {token : Token} :
    token.IsStray ↔ (!(token.kind.startsStatement || token.kind.isSeparator ||
      token.kind.isBlockKeyword)) = true := by
  simp [IsStray, and_assoc]

/-- The condition behind any keyword of an `if` among some tokens does not end at a separator, and
the lenient dialect reads on from there to where it resumes. An error among the tokens would be
reported before any condition is read. -/
structure Recovery (tokens : List Token) where
  clean : tokens.find? (·.kind == .error) = none
  steps : Nat
  keyword : Token
  opens : keyword.kind = .ifKeyword
  /-- The state behind the keyword. -/
  opened : State
  whole : opened.consumed.reverse ++ opened.rest = tokens
  behind : opened.consumed.head? = some keyword
  condition : Expr
  /-- The state behind the condition. -/
  ended : State
  read : Parser.wholeExpression steps opened = .done condition ended
  malformed : ended.atSeparator = false
  resumed : State
  recovered : Parser.resynchronize .matlab ended = .done () resumed

namespace State

/-- What is left when a parse resumes. -/
theorem resume_rest (s : State) :
    s.resume.rest = s.rest.dropWhile fun token =>
      !(token.kind.startsStatement || token.kind.isSeparator || token.kind.isBlockKeyword) := by
  unfold resume
  cases known : s.peek with
  | none =>
    have ended : s.rest = [] := List.head?_eq_none_iff.mp known
    rw [ended]
    rfl
  | some token => rfl

/-- The cursor stands between the tokens that are read and those that are left. -/
theorem take_cursor {s : State} {tokens : List Token}
    (whole : s.consumed.reverse ++ s.rest = tokens) :
    tokens.take s.cursor = s.consumed.reverse ∧ tokens.drop s.cursor = s.rest := by
  have length : s.consumed.reverse.length = s.cursor := List.length_reverse
  rw [← whole]
  exact ⟨List.take_left' length, List.drop_left' length⟩

end State

variable {dialect : Dialect} {tokens run rest : List Token} {s final : State} {newline : Token}

/-- A condition that was read is the condition in front of all tokens that do not go on with it. -/
theorem Fork.Conditional.of_reads {condition : Expr} {body : List Token}
    (reads : Grammar.Reads (.expression .outside 0 condition) s final)
    (advances : s.Advances run final) (operatorless : Operatorless rest)
    (separated : ∀ s₁ : State, s₁.rest = rest → ∃ s₂, Separated dialect s₁ s₂)
    (begins : ∀ s₁ s₂ : State, s₁.rest = rest → Separated dialect s₁ s₂ →
      s₂.skipSeparators.rest = body) :
    Conditional dialect (run ++ rest) condition body := by
  obtain ⟨run', advances', -, moves⟩ := reads.portable trivial
  obtain rfl := advances.unique advances'
  have elsewhere (s' : State) (here : s'.rest = run ++ rest) :
      ∃ final', Grammar.Reads (.expression .outside 0 condition) s' final' ∧
        final'.rest = rest := by
    obtain ⟨final', read, moved⟩ := moves s' rest here (fun inside => by cases inside)
      (.inr ⟨reads.operatorless, operatorless⟩)
    exact ⟨final', read, moved.rest_eq here⟩
  constructor
  · intro s' here
    obtain ⟨s₁, read, left⟩ := elsewhere s' here
    obtain ⟨s₂, between⟩ := separated s₁ left
    exact ⟨s₁, s₂, read, between, begins s₁ s₂ left between⟩
  · intro s' s₁ s₂ written here again between
    obtain ⟨final', read, left⟩ := elsewhere s' here
    obtain ⟨rfl, rfl⟩ := read.unique again
    exact ⟨rfl, begins s₁ s₂ left between⟩

namespace Recovery

variable (recovery : Recovery tokens)

/-- The index at which the condition ends. -/
def first : Nat := recovery.ended.cursor

/-- The index at which the parse resumes. -/
def stop : Nat := recovery.resumed.cursor

/-- The tokens with a newline in place of those that are read over. -/
def separated (newline : Token) : List Token :=
  tokens.take recovery.first ++ newline :: tokens.drop recovery.stop

/-- The parse resumes where the lenient dialect does behind a condition. -/
theorem resumed_eq : recovery.resumed = recovery.ended.resume := by
  have recovered := recovery.recovered
  rw [Parser.resynchronize_apply] at recovered
  exact (Outcome.done.inj recovered).2.symm

/-- The condition is read by the rules for expressions. -/
theorem read_expression :
    Grammar.Reads (.expression .outside 0 recovery.condition) recovery.opened recovery.ended :=
  Grammar.soundAt recovery.steps (.expression .outside 0 recovery.condition) _ _ recovery.read

/-- The tokens in front of the end of the condition and those behind it are all tokens. -/
theorem ended_whole :
    recovery.ended.consumed.reverse ++ recovery.ended.rest = tokens :=
  recovery.read_expression.reaches.whole.trans recovery.whole

/-- The parse resumes behind the end of the condition. -/
theorem resumed_reaches : recovery.ended.Reaches recovery.resumed := by
  rw [recovery.resumed_eq]
  exact (State.Reaches.refl _).resume

/-- The tokens in front of the place where the parse resumes and those behind it are all tokens. -/
theorem resumed_whole :
    recovery.resumed.consumed.reverse ++ recovery.resumed.rest = tokens :=
  recovery.resumed_reaches.whole.trans recovery.ended_whole

/-- The parse resumes at the first token that starts a statement, separates statements or belongs to
a block. -/
theorem resumed_rest :
    recovery.resumed.rest = recovery.ended.rest.dropWhile fun token =>
      !(token.kind.startsStatement || token.kind.isSeparator || token.kind.isBlockKeyword) := by
  rw [recovery.resumed_eq, State.resume_rest]

/-- The keyword and the condition stand in front of the tokens that are read over. -/
theorem exists_condition : ∃ front run,
    recovery.opened.Advances run recovery.ended ∧
    tokens = front ++ recovery.keyword :: (run ++ recovery.ended.rest) ∧
    ∀ newline, recovery.separated newline =
      front ++ recovery.keyword :: (run ++ newline :: recovery.resumed.rest) := by
  obtain ⟨before, read⟩ := List.head?_eq_some_iff.mp recovery.behind
  obtain ⟨run, advances⟩ := recovery.read_expression.reaches
  have consumed : recovery.ended.consumed.reverse =
      before.reverse ++ recovery.keyword :: run := by
    rw [advances.consumed, read]
    simp
  obtain ⟨taken, left⟩ := State.take_cursor recovery.ended_whole
  obtain ⟨-, behind⟩ := State.take_cursor recovery.resumed_whole
  refine ⟨before.reverse, run, advances, ?_, fun newline => ?_⟩
  · refine recovery.ended_whole.symm.trans ?_
    rw [consumed, List.append_assoc, List.cons_append]
  · rw [separated, first, stop, taken, behind, consumed, List.append_assoc, List.cons_append]

/-- The `if` goes on in the same way with a newline behind its condition. -/
theorem even (separates : newline.kind = .newline) {run : List Token}
    (advances : recovery.opened.Advances run recovery.ended) :
    Fork.Even ⟨recovery.keyword, recovery.opens, run ++ recovery.ended.rest,
      run ++ newline :: recovery.resumed.rest⟩ .matlab := by
  have reads := recovery.read_expression
  refine ⟨recovery.condition, recovery.resumed.skipSeparators.rest,
    .of_reads reads advances reads.operatorless ?_ ?_,
    .of_reads reads advances (operatorless_cons (by rw [separates]; rfl)) ?_ ?_⟩
  · intro s₁ rest
    refine ⟨s₁.resume, .resumed ?_ rfl⟩
    rw [← recovery.malformed, State.atSeparator, State.atSeparator, State.peekKind, rest,
      State.peekKind]
  · intro s₁ s₂ rest between
    cases between with
    | separator here =>
      rw [State.atSeparator, State.peekKind, rest] at here
      exact absurd here (by simpa [State.atSeparator, State.peekKind] using recovery.malformed)
    | resumed =>
      have same : s₁.resume.rest = recovery.resumed.rest := by
        rw [State.resume_rest, rest, recovery.resumed_rest]
      rw [State.skipSeparators, State.skip, same]
      rfl
  · intro s₁ rest
    refine ⟨s₁, .separator ?_⟩
    simp [State.atSeparator, State.peekKind, rest, separates, Kind.isSeparator]
  · intro s₁ s₂ rest between
    have here : s₁.atSeparator = true := by
      simp [State.atSeparator, State.peekKind, rest, separates, Kind.isSeparator]
    cases between with
    | separator =>
      have skipped : newline.kind.isSeparator = true := by rw [separates]; rfl
      simp [State.skipSeparators, State.skip, rest, skipped]
    | resumed malformed => exact absurd (here.symm.trans malformed) (by simp)

/-- What is read over is the longest run in which nothing goes on. -/
theorem longestRun : LongestRun tokens recovery.first recovery.stop Token.IsStray := by
  obtain ⟨run, advances⟩ := recovery.resumed_reaches
  have skipped : run = recovery.ended.rest.takeWhile fun token =>
      !(token.kind.startsStatement || token.kind.isSeparator || token.kind.isBlockKeyword) := by
    have rest := advances.rest
    rw [recovery.resumed_rest] at rest
    exact List.append_cancel_right (rest.symm.trans List.takeWhile_append_dropWhile.symm)
  obtain ⟨taken, left⟩ := State.take_cursor recovery.resumed_whole
  refine ⟨recovery.resumed_reaches.cursor_le, ?_, fun token inside => ?_, fun token here => ?_⟩
  · have length := congrArg List.length recovery.resumed_whole
    rw [List.length_append, List.length_reverse] at length
    exact Nat.le.intro length
  · have between : (tokens.take recovery.stop).drop recovery.first = run := by
      rw [stop, taken, advances.consumed, List.reverse_append, List.reverse_reverse]
      exact List.drop_left' List.length_reverse
    rw [between, skipped] at inside
    exact Token.isStray_iff.mpr (List.all_eq_true.mp List.all_takeWhile token inside)
  · have head : recovery.resumed.rest.head? = some token := by
      rw [← left, List.head?_drop]
      exact here
    have stops := List.head?_dropWhile_not (fun token : Token =>
      !(token.kind.startsStatement || token.kind.isSeparator || token.kind.isBlockKeyword))
      recovery.ended.rest
    rw [← recovery.resumed_rest, head] at stops
    rw [Token.isStray_iff]
    simpa using stops

/-- With a newline there is no error among the tokens either. -/
theorem separated_clean (separates : newline.kind = .newline) :
    (recovery.separated newline).find? (·.kind == .error) = none := by
  have clean := List.find?_eq_none.mp recovery.clean
  refine List.find?_eq_none.mpr fun token inside => ?_
  obtain before | rfl | behind : token ∈ tokens.take recovery.first ∨ token = newline ∨
      token ∈ tokens.drop recovery.stop := by simpa [separated] using inside
  · exact clean token (List.mem_of_mem_take before)
  · simp [separates]
  · exact clean token (List.mem_of_mem_drop behind)

/-- Reading over what follows a malformed condition is the same as finding a newline there. With a
newline instead of the tokens that are read over, the program is refused as well, or it is the same
program at the same positions. What is read over is the longest run of tokens that neither begin a
statement, nor separate statements, nor end a block. -/
theorem inserts_separator (separates : newline.kind = .newline) :
    (((∃ failure, Program.ofTokens .matlab tokens = some (.error failure)) ∧
        ∃ failure,
          Program.ofTokens .matlab (recovery.separated newline) = some (.error failure)) ∨
      ∃ program, Program.ofTokens .matlab tokens = some (.ok program) ∧
        Program.ofTokens .matlab (recovery.separated newline) = some (.ok program)) ∧
    LongestRun tokens recovery.first recovery.stop Token.IsStray := by
  refine ⟨?_, recovery.longestRun⟩
  obtain ⟨front, run, advances, whole, separated⟩ := recovery.exists_condition
  have even := recovery.even separates advances
  have one (program : Program) (accepted : Program.ofTokens .matlab tokens = some (.ok program)) :
      Program.ofTokens .matlab (recovery.separated newline) = some (.ok program) := by
    rw [whole] at accepted
    have clean := recovery.separated_clean separates
    rw [separated] at clean ⊢
    exact even.accepted clean accepted
  have other (program : Program)
      (accepted : Program.ofTokens .matlab (recovery.separated newline) = some (.ok program)) :
      Program.ofTokens .matlab tokens = some (.ok program) := by
    have clean := recovery.clean
    rw [separated] at accepted
    rw [whole] at clean ⊢
    exact even.swap.accepted clean accepted
  obtain ⟨result, known⟩ := Program.exists_ofTokens .matlab tokens
  obtain ⟨result', known'⟩ := Program.exists_ofTokens .matlab (recovery.separated newline)
  cases result with
  | ok program => exact .inr ⟨program, known, one program known⟩
  | error failure =>
    cases result' with
    | ok program => exact .inr ⟨program, other program known', known'⟩
    | error failure' => exact .inl ⟨⟨failure, known⟩, failure', known'⟩

/-- The parenthesis in `if x) y = 1; end` is read over, and a newline in its place makes the same
program. -/
theorem inserts_separator_parenthesis :
    let front : List Token := [⟨.ifKeyword, "if", ⟨1, 0⟩⟩, ⟨.ident, "x", ⟨1, 3⟩⟩]
    let later : List Token := [⟨.ident, "y", ⟨1, 6⟩⟩, ⟨.assign, "=", ⟨1, 8⟩⟩,
      ⟨.number, "1", ⟨1, 10⟩⟩, ⟨.semicolon, ";", ⟨1, 11⟩⟩, ⟨.endKeyword, "end", ⟨1, 13⟩⟩]
    let program : Program := ⟨[.branch (.mk (.ident ⟨"x", ⟨1, 3⟩⟩)
      [.assign (.var ⟨"y", ⟨1, 6⟩⟩) (.number "1" ⟨1, 10⟩) ⟨1, 8⟩] (.block []) ⟨1, 0⟩)]⟩
    Program.ofTokens .matlab (front ++ ⟨.rightParen, ")", ⟨1, 4⟩⟩ :: later) = some (.ok program) ∧
      Program.ofTokens .matlab (front ++ ⟨.newline, "\n", ⟨1, 4⟩⟩ :: later) = some (.ok program) ∧
      LongestRun (front ++ ⟨.rightParen, ")", ⟨1, 4⟩⟩ :: later) 2 3 Token.IsStray := by
  intro front later program
  let recovery : Recovery (front ++ ⟨.rightParen, ")", ⟨1, 4⟩⟩ :: later) := {
    clean := by cbv
    steps := 8
    keyword := ⟨.ifKeyword, "if", ⟨1, 0⟩⟩
    opens := rfl
    opened := ⟨[⟨.ifKeyword, "if", ⟨1, 0⟩⟩],
      ⟨.ident, "x", ⟨1, 3⟩⟩ :: ⟨.rightParen, ")", ⟨1, 4⟩⟩ :: later, none, []⟩
    whole := rfl
    behind := rfl
    condition := .ident ⟨"x", ⟨1, 3⟩⟩
    ended := ⟨front.reverse, ⟨.rightParen, ")", ⟨1, 4⟩⟩ :: later, none, []⟩
    read := by cbv
    malformed := rfl
    resumed := ⟨⟨.rightParen, ")", ⟨1, 4⟩⟩ :: front.reverse, later, none,
      [.resynchronized 1 ")"]⟩
    recovered := rfl }
  have accepted : Program.ofTokens .matlab (front ++ ⟨.rightParen, ")", ⟨1, 4⟩⟩ :: later) =
      some (.ok program) := by cbv
  have separates : (⟨.newline, "\n", ⟨1, 4⟩⟩ : Token).kind = .newline := rfl
  obtain ⟨⟨⟨failure, refused⟩, -⟩ | ⟨same, known, known'⟩, longest⟩ :=
    recovery.inserts_separator separates
  · rw [accepted] at refused
    cases refused
  · rw [accepted] at known
    cases known
    exact ⟨accepted, known', longest⟩

end Recovery

end MatlabFront
