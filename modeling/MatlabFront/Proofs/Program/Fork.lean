import MatlabFront.Proofs.Expression.Keyword
import MatlabFront.Proofs.Program.Lookahead

/-!
# Programs that differ behind an `if`

Two programs have the same tokens up to the keyword of an `if`. In front of the keyword both are
read in the same way: no expression and no word of a command goes over the keyword, and nothing that
is looked at lies behind it. If both have the same condition behind the keyword, and the body begins
at the same tokens, both are read in the same way to their ends.
-/

namespace MatlabFront

open Surface

/-- The keyword of an `if`, and what stands behind it in two programs. -/
structure Fork where
  keyword : Token
  opens : keyword.kind = .ifKeyword
  /-- What stands behind the keyword in the first program. -/
  first : List Token
  /-- What stands behind the keyword in the second program. -/
  second : List Token

namespace Fork

variable {fork : Fork} {dialect : Dialect} {s s' s₁ s₁' final : State} {kind : Kind} {token : Token}

/-- The fork with the two programs exchanged. -/
def swap (fork : Fork) : Fork := { fork with first := fork.second, second := fork.first }

/-- Two states stand in front of the same tokens, or the keyword is the first place behind which
their tokens differ. -/
inductive Beside (fork : Fork) (s s' : State) : Prop where
  | before (left : List Token) : s.rest = left ++ fork.keyword :: fork.first →
    s'.rest = left ++ fork.keyword :: fork.second → fork.Beside s s'
  | behind : s'.rest = s.rest → fork.Beside s s'

/-- No word of a command is or continues with the keyword. -/
theorem words_before (fork : Fork) (left behind : List Token) :
    Command.words (left ++ fork.keyword :: behind) =
      ((Command.words left).1, (Command.words left).2 ++ fork.keyword :: behind) := by
  apply Command.words_before
  rintro _ ⟨⟩
  rw [fork.opens]
  rfl

namespace Beside

/-- Only the tokens that are left count for how two states stand. -/
theorem congr (beside : fork.Beside s s') (rest : s₁.rest = s.rest) (rest' : s₁'.rest = s'.rest) :
    fork.Beside s₁ s₁' := by
  cases beside with
  | before left one other => exact .before left (rest.trans one) (rest'.trans other)
  | behind same => exact .behind (by rw [rest', same, rest])

/-- Noting a name moves no token on either side. -/
theorem note (beside : fork.Beside s s') (name : String) :
    fork.Beside (s.note name) (s'.note name) :=
  beside.congr (State.note_rest s name) (State.note_rest s' name)

/-- Reports move no token, whatever is reported. -/
theorem log (beside : fork.Beside s s') (event event' : Event) :
    fork.Beside (s.log event) (s'.log event') := beside.congr rfl rfl

/-- The next token is the same: it stands in front of the fork, or it is the keyword, or it stands
behind. -/
theorem peek (beside : fork.Beside s s') : s'.peek = s.peek := by
  cases beside with
  | before left one other =>
    rw [State.peek, State.peek, one, other]
    cases left <;> rfl
  | behind same => rw [State.peek, State.peek, same]

/-- A token that comes next in one program comes next in the other. -/
theorem peek_of (beside : fork.Beside s s') (known : s.peek = some token) :
    s'.peek = some token := beside.peek.trans known

/-- The next token is of the same kind. -/
theorem peekKind (beside : fork.Beside s s') : s'.peekKind = s.peekKind :=
  Grammar.peekKind_congr beside.peek

/-- A kind that comes next in one program comes next in the other. -/
theorem peekKind_of (beside : fork.Beside s s') (known : s.peekKind = some kind) :
    s'.peekKind = some kind := beside.peekKind.trans known

/-- A separator comes next in both programs or in none. -/
theorem atSeparator (beside : fork.Beside s s') : s'.atSeparator = s.atSeparator := by
  rw [State.atSeparator, beside.peekKind, State.atSeparator]

/-- A statement may end in both programs or in none. -/
theorem atTerminator (beside : fork.Beside s s') : s'.atTerminator = s.atTerminator := by
  rw [State.atTerminator, beside.peekKind, State.atTerminator]

/-- A token that is not the keyword of an `if` stands in front of the fork or behind it. -/
theorem next (beside : fork.Beside s s') (known : s.peek = some token)
    (plain : token.kind ≠ .ifKeyword) : fork.Beside s.next s'.next := by
  have rest := State.rest_of_peek known
  have rest' := State.rest_of_peek (beside.peek_of known)
  cases beside with
  | before left one other =>
    obtain _ | ⟨first, left⟩ := left
    · obtain ⟨same, -⟩ := List.cons.inj (rest.symm.trans one)
      exact absurd (same ▸ fork.opens) plain
    · obtain ⟨-, one⟩ := List.cons.inj (rest.symm.trans one)
      obtain ⟨-, other⟩ := List.cons.inj (rest'.symm.trans other)
      exact .before left one other
  | behind same =>
    rw [rest, rest'] at same
    exact .behind (List.cons.inj same).2

/-- The same of a next token of which only the kind is known. -/
theorem next_of_peekKind (beside : fork.Beside s s') (known : s.peekKind = some kind)
    (plain : kind ≠ .ifKeyword) : fork.Beside s.next s'.next := by
  obtain ⟨token, here, rfl⟩ := State.peek_of_peekKind known
  exact beside.next here plain

/-- What is skipped ends in front of the keyword. -/
theorem skip (beside : fork.Beside s s') {test : Kind → Bool}
    (stops : test .ifKeyword = false) : fork.Beside (s.skip test) (s'.skip test) := by
  cases beside with
  | before left one other =>
    have here (behind : List Token) : (left ++ fork.keyword :: behind).dropWhile (test ·.kind) =
        left.dropWhile (test ·.kind) ++ fork.keyword :: behind := by
      have unread : (fork.keyword :: behind).dropWhile (test ·.kind) = fork.keyword :: behind := by
        simp [fork.opens, stops]
      rw [List.dropWhile_append, unread]
      split
      · next gone => rw [List.isEmpty_iff.mp gone, List.nil_append]
      · rfl
    refine .before (left.dropWhile (test ·.kind)) ?_ ?_
    · rw [← here, ← one]
      rfl
    · rw [← here, ← other]
      rfl
  | behind same =>
    refine .behind ?_
    rw [State.skip, State.skip, same]

/-- The keyword is no separator. -/
theorem skipSeparators (beside : fork.Beside s s') :
    fork.Beside s.skipSeparators s'.skipSeparators := beside.skip rfl

/-- Both programs leave a function behind the keyword that closes it, or where they stand. -/
theorem leave (beside : fork.Beside s s') : fork.Beside s.leave s'.leave := by
  have outside : fork.Beside { s with scope := none } { s' with scope := none } :=
    beside.congr rfl rfl
  unfold State.leave
  dsimp only
  rw [outside.peekKind]
  split
  · next known => exact outside.next_of_peekKind known (by simp)
  · exact outside

/-- The token behind the next one is the same unless the next one is the keyword. -/
theorem secondKind (beside : fork.Beside s s') (plain : s.peekKind ≠ some .ifKeyword) :
    s'.secondKind = s.secondKind := by
  cases beside with
  | before left one other =>
    obtain _ | ⟨first, left⟩ := left
    · exact absurd (by simp [State.peekKind, one, fork.opens]) plain
    · rw [State.secondKind, State.secondKind, one, other]
      cases left <;> rfl
  | behind same => rw [State.secondKind, State.secondKind, same]

/-- The header of a `for` holds no keyword of an `if`, so what is looked at lies in front of it. -/
theorem headerEnclosed (beside : fork.Beside s s') : s'.headerEnclosed = s.headerEnclosed := by
  have noParenthesis : (Kind.ifKeyword == .leftParen) = false := rfl
  have noName : (Kind.ifKeyword == .ident) = false := rfl
  unfold State.headerEnclosed State.peekKind State.secondKind State.thirdKind
  cases beside with
  | before left one other =>
    rw [one, other]
    obtain _ | ⟨first, _ | ⟨second, _ | ⟨third, left⟩⟩⟩ := left
    · simp [fork.opens, noParenthesis]
    · simp [fork.opens, noName]
    · rfl
    · rfl
  | behind same => rw [same]

/-- The words that come next are the same, and their ends stand beside each other. -/
theorem words (beside : fork.Beside s s') :
    (Command.words s'.rest).1 = (Command.words s.rest).1 ∧
      ∀ final final' : State, final.rest = (Command.words s.rest).2 →
        final'.rest = (Command.words s'.rest).2 → fork.Beside final final' := by
  cases beside with
  | before left one other =>
    rw [one, other, words_before, words_before]
    exact ⟨rfl, fun final final' rest rest' => .before _ rest rest'⟩
  | behind same =>
    rw [same]
    exact ⟨rfl, fun final final' rest rest' => .behind (rest'.trans rest.symm)⟩

/-- A command begins in both programs or in none. -/
theorem begins (beside : fork.Beside s s') :
    Command.begins s'.rest = Command.begins s.rest := by
  cases beside with
  | before left one other =>
    rw [one, other]
    cases left with
    | nil =>
      have noName : (Kind.ifKeyword == .ident) = false := rfl
      simp [Command.begins, fork.opens, noName]
    | cons name left =>
      simp only [List.cons_append, Command.begins, words_before]
      cases (Command.words left).2 <;> rfl
  | behind same => rw [same]

/-- A phrase for which only the next token behind it matters is read in both programs. -/
theorem phrase {phrase : Grammar.Phrase} (beside : fork.Beside s s')
    (reads : Grammar.Reads phrase s final) (proper : phrase.Proper)
    (starts : phrase.Starts s s')
    (follows : ∀ rest other, rest.head? = other.head? → phrase.Follows rest other) :
    ∃ final', Grammar.Reads phrase s' final' ∧ fork.Beside final final' := by
  obtain ⟨run, advances, -, moves⟩ := reads.portable proper
  cases beside with
  | before left one other =>
    -- The phrase ends in front of the keyword.
    obtain ⟨between, ahead⟩ := reads.ahead fork.opens proper ⟨left, one.symm⟩
    have front : left = run ++ between := by
      have whole := advances.rest
      rw [one, ← ahead, ← List.append_assoc] at whole
      exact List.append_cancel_right whole
    have rest : s'.rest = run ++ (between ++ fork.keyword :: fork.second) := by
      rw [other, front, List.append_assoc]
    have next : final.rest.head? = (between ++ fork.keyword :: fork.second).head? := by
      rw [← ahead]
      cases between <;> rfl
    obtain ⟨final', read, moved⟩ := moves s' _ rest starts (follows _ _ next)
    exact ⟨final', read, .before between ahead.symm (moved.rest_eq rest)⟩
  | behind same =>
    have rest : s'.rest = run ++ final.rest := same.trans advances.rest
    obtain ⟨final', read, moved⟩ := moves s' _ rest starts (follows _ _ rfl)
    exact ⟨final', read, .behind (moved.rest_eq rest)⟩

/-- An expression is read in both programs. -/
theorem expression {whole : Expr} (beside : fork.Beside s s')
    (reads : Grammar.Reads (.expression .outside 0 whole) s final) :
    ∃ final', Grammar.Reads (.expression .outside 0 whole) s' final' ∧ fork.Beside final final' :=
  beside.phrase reads trivial (fun inside => by cases inside) fun _ _ same => .inl same

/-- Names are read in both programs. -/
theorem names {names : List Ident} (beside : fork.Beside s s') (reads : Names names s final) :
    ∃ final', Names names s' final' ∧ fork.Beside final final' := by
  induction reads generalizing s' with
  | stop other => exact ⟨s', .stop (by rwa [beside.peekKind]), beside⟩
  | @name names token _ _ known kind _ ih =>
    obtain ⟨final', read, behind⟩ := ih ((beside.next known (by simp [kind])).note token.text)
    exact ⟨final', .name (beside.peek_of known) kind read, behind⟩

/-- The header of a `for` is read in both programs. -/
theorem forHead {var : Ident} {range : Expr} (beside : fork.Beside s s')
    (reads : ForHead var range s final) :
    ∃ final', ForHead var range s' final' ∧ fork.Beside final final' := by
  cases reads with
  | @mk token _ _ known kind name assigned expression =>
    have noted := (beside.next known (by simp [kind])).note token.text
    obtain ⟨final', read, behind⟩ :=
      (noted.next_of_peekKind assigned (by simp)).expression expression
    exact ⟨final', .mk (beside.peek_of known) kind name (noted.peekKind_of assigned) read, behind⟩

/-- Outputs in brackets are read in both programs. -/
theorem bracketedOutputs {names : List Ident} (beside : fork.Beside s s')
    (reads : BracketedOutputs names s final) :
    ∃ final', BracketedOutputs names s' final' ∧ fork.Beside final final' := by
  induction reads generalizing s' with
  | close known =>
    exact ⟨s'.next, .close (beside.peekKind_of known), beside.next_of_peekKind known (by simp)⟩
  | comma known _ ih =>
    obtain ⟨final', read, behind⟩ := ih (beside.next_of_peekKind known (by simp))
    exact ⟨final', .comma (beside.peekKind_of known) read, behind⟩
  | name known kind _ ih =>
    obtain ⟨final', read, behind⟩ := ih (beside.next known (by simp [kind]))
    exact ⟨final', .name (beside.peek_of known) kind read, behind⟩

/-- The outputs of a function are read in both programs. -/
theorem outputs {names : List Ident} (beside : fork.Beside s s') (reads : Outputs names s final) :
    ∃ final', Outputs names s' final' ∧ fork.Beside final final' := by
  cases reads with
  | bracketed opens inside assigned =>
    obtain ⟨s₁', read, behind⟩ :=
      (beside.next_of_peekKind opens (by simp)).bracketedOutputs inside
    exact ⟨s₁'.next, .bracketed (beside.peekKind_of opens) read (behind.peekKind_of assigned),
      behind.next_of_peekKind assigned (by simp)⟩
  | single known kind assigned =>
    have named := State.peekKind_of_peek known
    have second := beside.secondKind (by simp [named, kind])
    have behind := beside.next known (by simp [kind])
    have sign : s.next.peekKind = some .assign := assigned
    exact ⟨s'.next.next, .single (beside.peek_of known) kind (second.trans assigned),
      behind.next_of_peekKind sign (by simp)⟩
  | none noBracket noName =>
    refine ⟨s', .none (by rwa [beside.peekKind]) ?_, beside⟩
    rintro ⟨named, assigned⟩
    rw [beside.peekKind] at named
    exact noName ⟨named, beside.secondKind (by simp [named]) ▸ assigned⟩

/-- The parameters of a function are read in both programs. -/
theorem parameters {params : List Param} (beside : fork.Beside s s')
    (reads : Parameters params s final) :
    ∃ final', Parameters params s' final' ∧ fork.Beside final final' := by
  cases reads with
  | list opens params =>
    obtain ⟨final', read, behind⟩ := beside.phrase params trivial trivial fun _ _ _ => trivial
    exact ⟨final', .list (beside.peekKind_of opens) read, behind⟩
  | none other => exact ⟨s', .none (by rwa [beside.peekKind]), beside⟩

/-- The head of a function is read in both programs. -/
theorem head {pos : Position} {head : Header} (beside : fork.Beside s s')
    (reads : Head pos head s final) :
    ∃ final', Head pos head s' final' ∧ fork.Beside final final' := by
  cases reads with
  | mk declares known kind takes =>
    obtain ⟨s₁', declares', beside₁⟩ := beside.outputs declares
    obtain ⟨final', takes', behind⟩ := (beside₁.next known (by simp [kind])).parameters takes
    exact ⟨final', .mk declares' (beside₁.peek_of known) kind takes', behind⟩

/-- What is read over behind a condition ends in front of the keyword. -/
theorem separated (beside : fork.Beside s s') (separated : Separated dialect s final) :
    ∃ final', Separated dialect s' final' ∧ fork.Beside final final' := by
  cases separated with
  | separator here => exact ⟨s', .separator (beside.atSeparator.trans here), beside⟩
  | resumed here lenient =>
    refine ⟨s'.resume, .resumed (beside.atSeparator.trans here) lenient, ?_⟩
    unfold State.resume
    rw [beside.peek]
    cases s.peek with
    | none => exact beside
    | some token => exact (beside.log _ _).skip rfl

end Beside

/-- Some tokens behind the keyword of an `if` are read as one condition only, and then, behind all
separators, the body begins at the same tokens in any case. -/
structure Conditional (dialect : Dialect) (tokens : List Token) (condition : Expr)
    (body : List Token) : Prop where
  reads : ∀ s : State, s.rest = tokens → ∃ s₁ s₂,
    Grammar.Reads (.expression .outside 0 condition) s s₁ ∧ Separated dialect s₁ s₂ ∧
      s₂.skipSeparators.rest = body
  only : ∀ {s s₁ s₂ : State} {written : Expr}, s.rest = tokens →
    Grammar.Reads (.expression .outside 0 written) s s₁ → Separated dialect s₁ s₂ →
      written = condition ∧ s₂.skipSeparators.rest = body

/-- Both programs have the same condition behind the keyword, and the same tokens behind it. -/
def Even (fork : Fork) (dialect : Dialect) : Prop :=
  ∃ condition body, Conditional dialect fork.first condition body ∧
    Conditional dialect fork.second condition body

/-- Two programs with the same condition have it in either order. -/
theorem Even.swap (even : fork.Even dialect) : fork.swap.Even dialect := by
  obtain ⟨condition, body, one, other⟩ := even
  exact ⟨condition, body, other, one⟩

/-- The condition of an `if` and what separates it from the body are read in both programs, also
where the `if` is that of the fork. -/
theorem Even.branch (even : fork.Even dialect) {condition : Expr} {s₂ : State}
    (beside : fork.Beside s s') (known : s.peek = some token)
    (reads : Grammar.Reads (.expression .outside 0 condition) s.next s₁)
    (separated : Separated dialect s₁ s₂) :
    ∃ s₁' s₂', Grammar.Reads (.expression .outside 0 condition) s'.next s₁' ∧
      Separated dialect s₁' s₂' ∧ fork.Beside s₂.skipSeparators s₂'.skipSeparators := by
  have ordinary (behind : fork.Beside s.next s'.next) :
      ∃ s₁' s₂', Grammar.Reads (.expression .outside 0 condition) s'.next s₁' ∧
        Separated dialect s₁' s₂' ∧ fork.Beside s₂.skipSeparators s₂'.skipSeparators := by
    obtain ⟨s₁', read, beside₁⟩ := behind.expression reads
    obtain ⟨s₂', between, beside₂⟩ := beside₁.separated separated
    exact ⟨s₁', s₂', read, between, beside₂.skipSeparators⟩
  cases beside with
  | before left one other =>
    obtain _ | ⟨first, left⟩ := left
    · -- This is the keyword of the fork.
      obtain ⟨written, body, first, second⟩ := even
      obtain ⟨-, rest⟩ := State.peek_of_rest one
      obtain ⟨-, rest'⟩ := State.peek_of_rest other
      obtain ⟨rfl, ends⟩ := first.only rest reads separated
      obtain ⟨s₁', s₂', read, between, same⟩ := second.reads s'.next rest'
      exact ⟨s₁', s₂', read, between, .behind (same.trans ends.symm)⟩
    · obtain ⟨-, rest⟩ := State.peek_of_rest one
      obtain ⟨-, rest'⟩ := State.peek_of_rest other
      exact ordinary (.before left rest rest')
  | behind same =>
    have rest := State.rest_of_peek known
    obtain ⟨-, rest'⟩ := State.peek_of_rest (same.trans rest)
    exact ordinary (.behind rest')

/-- How two states stand in front of a part. Separators in front of a block do not count. -/
def Meets (fork : Fork) (s s' : State) : Part → Prop
  | .block .. => fork.Beside s.skipSeparators s'.skipSeparators
  | _ => fork.Beside s s'

/-- The bodies of two functions with the same statements use the number of arguments or not. -/
theorem usesNargin_eq {head : Header} {ends : Kind → Bool} {body : List Statement}
    {final' : State} (reads : Reads dialect (.block ends body) (s.enter head) final)
    (again : Reads dialect (.block ends body) (s'.enter head) final') :
    final'.usesNargin = final.usesNargin := by
  have one := (State.Notes.usesNargin rfl reads.noted).2
  have other := (State.Notes.usesNargin rfl again.noted).2
  exact Bool.eq_iff_iff.mpr (other.trans one.symm)

/-- A part that is read in one program is read in the other, from every state that stands beside. -/
def Shares (fork : Fork) (dialect : Dialect) (s final : State) (part : Part) : Prop :=
  ∀ s' : State, fork.Meets s s' part →
    ∃ final', Reads dialect part s' final' ∧ fork.Beside final final'

namespace Shares

variable {condition left value subject range : Expr} {written first : Statement}
  {body handler : List Statement} {items : List Item} {tail : Tail} {cases : Cases} {var : Ident}
  {ends : Kind → Bool} {s₂ s₃ s₄ : State}

/-- A block is shared when its first statement and the rest of it are. -/
theorem block (known : s.skipSeparators.peekKind = some kind) (goes : ends kind = false)
    (plain : kind.isBlockKeyword = false)
    (head : fork.Shares dialect s.skipSeparators s₁ (.statement first))
    (tail : fork.Shares dialect s₁ s₂ (.block ends body)) :
    fork.Shares dialect s s₂ (.block ends (first :: body)) := by
  intro s' beside
  obtain ⟨s₁', one, between⟩ := head _ beside
  obtain ⟨final', later, behind⟩ := tail _ between.skipSeparators
  exact ⟨final', .block (beside.peekKind_of known) goes plain one later, behind⟩

/-- Both sides of an assignment stand in front of the keyword or behind it. -/
theorem assign (plain : startsPlain s.peekKind = true)
    (noCommand : dialect = .strict ∨ Command.begins s.rest = false)
    (target : Grammar.Reads (.expression .outside 0 left) s s₁) (sign : s₁.peek = some token)
    (assigned : token.kind = .assign)
    (source : Grammar.Reads (.expression .outside 0 value) s₁.next s₂)
    (sort : Assigns token.pos left value written) :
    fork.Shares dialect s s₂ (.openStatement written) := by
  intro s' (beside : fork.Beside s s')
  obtain ⟨s₁', readLeft, between⟩ := beside.expression target
  obtain ⟨final', readValue, behind⟩ := (between.next sign (by simp [assigned])).expression source
  exact ⟨final', .assign (by rwa [beside.peekKind]) (by rwa [beside.begins]) readLeft
    (between.peek_of sign) assigned readValue sort, behind⟩

/-- The words of a command end in front of the keyword. -/
theorem command {call : Call} (plain : startsPlain s.peekKind = true)
    (lenient : dialect = .matlab) (command : Command.begins s.rest = true)
    (run : Parser.command s = .done (.call call) s₁) :
    fork.Shares dialect s s₁ (.openStatement (.command call)) := by
  intro s' (beside : fork.Beside s s')
  obtain ⟨name, _, -, taken⟩ := Parser.command_takes run
  obtain ⟨words, ends⟩ := (beside.next taken.known (by simp [taken.kind])).words
  obtain ⟨final', run', rest, rest'⟩ := Parser.command_of_words run beside.peek words
  exact ⟨final', .command (by rwa [beside.peekKind]) lenient (by rwa [beside.begins]) run',
    ends _ _ rest rest'⟩

/-- Only an `if` can go over the keyword, where both programs have the same condition. -/
theorem branch (even : fork.Even dialect) (known : s.peek = some token)
    (opens : token.kind = .ifKeyword)
    (test : Grammar.Reads (.expression .outside 0 condition) s.next s₁)
    (separated : Separated dialect s₁ s₂) (ended : s₄.peekKind = some .endKeyword)
    (block : fork.Shares dialect s₂ s₃ (.block Parser.endsBranch body))
    (more : fork.Shares dialect s₃ s₄ (.tail tail)) :
    fork.Shares dialect s s₄.next (.openStatement (.branch condition body tail token.pos)) := by
  intro s' (beside : fork.Beside s s')
  obtain ⟨s₁', s₂', readCondition, separated', beside₂⟩ :=
    even.branch beside known test separated
  obtain ⟨s₃', readBody, beside₃⟩ := block _ beside₂
  obtain ⟨s₄', readTail, beside₄⟩ := more _ beside₃
  exact ⟨s₄'.next, .branch (beside.peek_of known) opens readCondition separated' readBody readTail
    (beside₄.peekKind_of ended), beside₄.next_of_peekKind ended (by simp)⟩

/-- A `while` is shared when its body is. -/
theorem whileLoop (known : s.peek = some token) (opens : token.kind = .whileKeyword)
    (test : Grammar.Reads (.expression .outside 0 condition) s.next s₁)
    (separator : s₁.atSeparator = true) (ended : s₂.peekKind = some .endKeyword)
    (block : fork.Shares dialect s₁ s₂ (.block (· == .endKeyword) body)) :
    fork.Shares dialect s s₂.next (.openStatement (.whileLoop condition body token.pos)) := by
  intro s' (beside : fork.Beside s s')
  obtain ⟨s₁', readCondition, beside₁⟩ := (beside.next known (by simp [opens])).expression test
  obtain ⟨s₂', readBody, beside₂⟩ := block _ beside₁.skipSeparators
  exact ⟨s₂'.next, .whileLoop (beside.peek_of known) opens readCondition
    (beside₁.atSeparator.trans separator) readBody (beside₂.peekKind_of ended),
    beside₂.next_of_peekKind ended (by simp)⟩

/-- A `for` is shared when its body is. -/
theorem forLoop (known : s.peek = some token) (opens : token.kind = .forKeyword)
    (bare : s.next.headerEnclosed = false) (head : ForHead var range s.next s₁)
    (separator : s₁.atSeparator = true) (ended : s₂.peekKind = some .endKeyword)
    (block : fork.Shares dialect s₁ s₂ (.block (· == .endKeyword) body)) :
    fork.Shares dialect s s₂.next (.openStatement (.forLoop var range body token.pos)) := by
  intro s' (beside : fork.Beside s s')
  have opened := beside.next known (by simp [opens])
  obtain ⟨s₁', readHead, beside₁⟩ := opened.forHead head
  obtain ⟨s₂', readBody, beside₂⟩ := block _ beside₁.skipSeparators
  exact ⟨s₂'.next, .forLoop (beside.peek_of known) opens (opened.headerEnclosed.trans bare)
    readHead (beside₁.atSeparator.trans separator) readBody (beside₂.peekKind_of ended),
    beside₂.next_of_peekKind ended (by simp)⟩

/-- The same of a `for` with its header in parentheses. -/
theorem forEnclosed (known : s.peek = some token) (opens : token.kind = .forKeyword)
    (enclosed : s.next.headerEnclosed = true) (head : ForHead var range s.next.next s₁)
    (closes : s₁.peekKind = some .rightParen) (separator : s₁.next.atSeparator = true)
    (ended : s₂.peekKind = some .endKeyword)
    (block : fork.Shares dialect s₁.next s₂ (.block (· == .endKeyword) body)) :
    fork.Shares dialect s s₂.next (.openStatement (.forLoop var range body token.pos)) := by
  intro s' (beside : fork.Beside s s')
  have opened := beside.next known (by simp [opens])
  have parenthesis := State.peekKind_of_headerEnclosed enclosed
  obtain ⟨s₁', readHead, beside₁⟩ := (opened.next_of_peekKind parenthesis (by simp)).forHead head
  have closed := beside₁.next_of_peekKind closes (by simp)
  obtain ⟨s₂', readBody, beside₂⟩ := block _ closed.skipSeparators
  exact ⟨s₂'.next, .forEnclosed (beside.peek_of known) opens
    (opened.headerEnclosed.trans enclosed) readHead (beside₁.peekKind_of closes)
    (closed.atSeparator.trans separator) readBody (beside₂.peekKind_of ended),
    beside₂.next_of_peekKind ended (by simp)⟩

/-- A switch is shared when its cases are. -/
theorem switch (known : s.peekKind = some .switchKeyword)
    (test : Grammar.Reads (.expression .outside 0 subject) s.next s₁)
    (separator : s₁.atSeparator = true) (ended : s₂.peekKind = some .endKeyword)
    (chain : fork.Shares dialect s₁ s₂ (.cases cases)) :
    fork.Shares dialect s (cases.logged s₂.next) (.openStatement (.switch subject cases)) := by
  intro s' (beside : fork.Beside s s')
  obtain ⟨s₁', readSubject, beside₁⟩ := (beside.next_of_peekKind known (by simp)).expression test
  obtain ⟨s₂', readCases, beside₂⟩ := chain _ beside₁
  have behind := beside₂.next_of_peekKind ended (by simp)
  exact ⟨cases.logged s₂'.next, .switch (beside.peekKind_of known) readSubject
    (beside₁.atSeparator.trans separator) readCases (beside₂.peekKind_of ended),
    behind.congr (cases.logged_rest _) (cases.logged_rest _)⟩

/-- A `try` without a handler is shared when its body is. -/
theorem tryOnly (known : s.peek = some token) (opens : token.kind = .tryKeyword)
    (ended : s₁.peekKind = some .endKeyword)
    (block : fork.Shares dialect s.next s₁ (.block Parser.endsTry body)) :
    fork.Shares dialect s s₁.next (.openStatement (.tryCatch body [] token.pos)) := by
  intro s' (beside : fork.Beside s s')
  obtain ⟨s₁', readBody, beside₁⟩ := block _ (beside.next known (by simp [opens])).skipSeparators
  exact ⟨s₁'.next, .tryOnly (beside.peek_of known) opens readBody (beside₁.peekKind_of ended),
    beside₁.next_of_peekKind ended (by simp)⟩

/-- A `try` with a handler is shared when both of its bodies are. -/
theorem tryCatch (known : s.peek = some token) (opens : token.kind = .tryKeyword)
    (catches : s₁.peekKind = some .catchKeyword) (ended : s₂.peekKind = some .endKeyword)
    (block : fork.Shares dialect s.next s₁ (.block Parser.endsTry body))
    (handled : fork.Shares dialect s₁.next s₂ (.block (· == .endKeyword) handler)) :
    fork.Shares dialect s s₂.next (.openStatement (.tryCatch body handler token.pos)) := by
  intro s' (beside : fork.Beside s s')
  obtain ⟨s₁', readBody, beside₁⟩ := block _ (beside.next known (by simp [opens])).skipSeparators
  obtain ⟨s₂', readHandler, beside₂⟩ :=
    handled _ (beside₁.next_of_peekKind catches (by simp)).skipSeparators
  exact ⟨s₂'.next, .tryCatch (beside.peek_of known) opens readBody (beside₁.peekKind_of catches)
    readHandler (beside₂.peekKind_of ended), beside₂.next_of_peekKind ended (by simp)⟩

/-- An `elseif` is shared when its body and the alternatives behind it are. -/
theorem branchTail (known : s.peek = some token) (opens : token.kind = .elseIfKeyword)
    (test : Grammar.Reads (.expression .outside 0 condition) s.next s₁)
    (separator : s₁.atSeparator = true)
    (block : fork.Shares dialect s₁ s₂ (.block Parser.endsBranch body))
    (more : fork.Shares dialect s₂ s₃ (.tail tail)) :
    fork.Shares dialect s s₃ (.tail (.branch condition body tail token.pos)) := by
  intro s' (beside : fork.Beside s s')
  obtain ⟨s₁', readCondition, beside₁⟩ := (beside.next known (by simp [opens])).expression test
  obtain ⟨s₂', readBody, beside₂⟩ := block _ beside₁.skipSeparators
  obtain ⟨final', readTail, behind⟩ := more _ beside₂
  exact ⟨final', .branchTail (beside.peek_of known) opens readCondition
    (beside₁.atSeparator.trans separator) readBody readTail, behind⟩

/-- An `otherwise` is shared when its body is. -/
theorem otherwiseCases (known : s.skipSeparators.peekKind = some .otherwiseKeyword)
    (block : fork.Shares dialect s.skipSeparators.next s₁ (.block (· == .endKeyword) body)) :
    fork.Shares dialect s s₁ (.cases (.otherwise body)) := by
  intro s' (beside : fork.Beside s s')
  have skipped := beside.skipSeparators
  obtain ⟨final', read, behind⟩ := block _ (skipped.next_of_peekKind known (by simp)).skipSeparators
  exact ⟨final', .otherwiseCases (skipped.peekKind_of known) read, behind⟩

/-- A `case` is shared when its body and the cases behind it are. -/
theorem caseCases (known : s.skipSeparators.peek = some token) (opens : token.kind = .caseKeyword)
    (test : Grammar.Reads (.expression .outside 0 value) s.skipSeparators.next s₁)
    (separator : s₁.atSeparator = true)
    (block : fork.Shares dialect s₁ s₂ (.block Parser.endsCase body))
    (more : fork.Shares dialect s₂ s₃ (.cases cases)) :
    fork.Shares dialect s s₃ (.cases (.case value body cases token.pos)) := by
  intro s' (beside : fork.Beside s s')
  have skipped := beside.skipSeparators
  obtain ⟨s₁', readValue, beside₁⟩ := (skipped.next known (by simp [opens])).expression test
  obtain ⟨s₂', readBody, beside₂⟩ := block _ beside₁.skipSeparators
  obtain ⟨final', readCases, behind⟩ := more _ beside₂
  exact ⟨final', .caseCases (skipped.peek_of known) opens readValue
    (beside₁.atSeparator.trans separator) readBody readCases, behind⟩

/-- The top of a program is shared when its first statement and the rest of it are. -/
theorem item (known : s.skipSeparators.peekKind = some kind) (plain : kind.isBlockKeyword = false)
    (head : fork.Shares dialect s.skipSeparators s₁ (.statement first))
    (tail : fork.Shares dialect s₁ s₂ (.items items)) :
    fork.Shares dialect s s₂ (.items (.statement first :: items)) := by
  intro s' (beside : fork.Beside s s')
  have skipped := beside.skipSeparators
  obtain ⟨s₁', one, between⟩ := head _ skipped
  obtain ⟨final', later, behind⟩ := tail _ between
  exact ⟨final', .item (skipped.peekKind_of known) plain one later, behind⟩

/-- A function is shared when its body and what follows it are. Its body notes what is in its
statements, which are the same. -/
theorem function {head : Header} {event : Event} (known : s.skipSeparators.peek = some token)
    (opens : token.kind = .functionKeyword)
    (header : Head token.pos head s.skipSeparators.next s₁)
    (bodyReads : Reads dialect (.block Parser.endsFunction body) (s₁.enter head) s₂)
    (same : event = .functionClosed head.name.name
      (closed head (lowerAll head.outputs body)).length s₂.usesNargin)
    (block : fork.Shares dialect (s₁.enter head) s₂ (.block Parser.endsFunction body))
    (tail : fork.Shares dialect (s₂.leave.log event) s₃ (.items items)) :
    fork.Shares dialect s s₃
      (.items (.function { head with usesNargin := s₂.usesNargin } body :: items)) := by
  intro s' (beside : fork.Beside s s')
  have skipped := beside.skipSeparators
  obtain ⟨s₁', headReads', beside₁⟩ := (skipped.next known (by simp [opens])).head header
  have entered : fork.Beside (s₁.enter head) (s₁'.enter head) := beside₁.congr rfl rfl
  obtain ⟨s₂', bodyReads', beside₂⟩ := block _ entered.skipSeparators
  obtain ⟨final', later, behind⟩ := tail _ (beside₂.leave.log event event)
  have nargin := usesNargin_eq bodyReads bodyReads'
  refine ⟨final', ?_, behind⟩
  rw [← nargin]
  exact .function (skipped.peek_of known) opens headReads' bodyReads' later (by rw [nargin, same])

end Shares

/-- What is read in one program is read in the other. -/
theorem Even.reads (even : fork.Even dialect) {part : Part} (reads : Reads dialect part s final) :
    fork.Shares dialect s final part := by
  -- Only a branch can go over the keyword. Everything else keeps the states beside each other.
  induction reads with
  | blockEnd ended =>
    intro s' (beside : fork.Beside _ s'.skipSeparators)
    exact ⟨_, .blockEnd (by rwa [beside.peekKind]), beside⟩
  | block known goes plain _ _ head tail => exact .block known goes plain head tail
  | statement _ terminates head =>
    intro s' beside
    obtain ⟨final', first, behind⟩ := head _ beside
    exact ⟨final', .statement first (behind.atTerminator.trans terminates), behind⟩
  | @eval _ s _ plain noCommand expression noAssign =>
    intro s' (beside : fork.Beside s s')
    obtain ⟨final', read, behind⟩ := beside.expression expression
    exact ⟨final', .eval (by rwa [beside.peekKind]) (by rwa [beside.begins]) read
      (by rwa [behind.peekKind]), behind⟩
  | assign plain noCommand left sign kind value sort =>
    exact .assign plain noCommand left sign kind value sort
  | command plain lenient command run => exact .command plain lenient command run
  | branch known kind condition separated _ _ ended body tail =>
    exact .branch even known kind condition separated ended body tail
  | whileLoop known kind condition separator _ ended body =>
    exact .whileLoop known kind condition separator ended body
  | forLoop known kind bare head separator _ ended body =>
    exact .forLoop known kind bare head separator ended body
  | forEnclosed known kind enclosed head closes separator _ ended body =>
    exact .forEnclosed known kind enclosed head closes separator ended body
  | switch known subject separator _ ended chain => exact .switch known subject separator ended chain
  | tryOnly known kind _ ended body => exact .tryOnly known kind ended body
  | tryCatch known kind _ catches _ ended body handler =>
    exact .tryCatch known kind catches ended body handler
  | @global _ _ _ s _ known kind names =>
    intro s' (beside : fork.Beside s s')
    obtain ⟨final', read, behind⟩ := (beside.next known (by simp [kind])).names names
    exact ⟨final', .global (beside.peek_of known) kind read, behind⟩
  | @breakLoop _ s known kind =>
    intro s' (beside : fork.Beside s s')
    exact ⟨_, .breakLoop (beside.peek_of known) kind, beside.next known (by simp [kind])⟩
  | @continueLoop _ s known kind =>
    intro s' (beside : fork.Beside s s')
    exact ⟨_, .continueLoop (beside.peek_of known) kind, beside.next known (by simp [kind])⟩
  | @leave _ s known kind =>
    intro s' (beside : fork.Beside s s')
    exact ⟨_, .leave (beside.peek_of known) kind, beside.next known (by simp [kind])⟩
  | @noTail s noElseIf noElse =>
    intro s' (beside : fork.Beside s s')
    exact ⟨s', .noTail (by rwa [beside.peekKind]) (by rwa [beside.peekKind]), beside⟩
  | @otherwiseTail _ s _ known _ body =>
    intro s' (beside : fork.Beside s s')
    obtain ⟨final', read, behind⟩ :=
      body _ (beside.next_of_peekKind known (by simp)).skipSeparators
    exact ⟨final', .otherwiseTail (beside.peekKind_of known) read, behind⟩
  | branchTail known kind condition separator _ _ body tail =>
    exact .branchTail known kind condition separator body tail
  | @noCases s noCase noOtherwise =>
    intro s' (beside : fork.Beside s s')
    have skipped := beside.skipSeparators
    exact ⟨_, .noCases (by rwa [skipped.peekKind]) (by rwa [skipped.peekKind]), skipped⟩
  | otherwiseCases known _ body => exact .otherwiseCases known body
  | caseCases known kind value separator _ _ body cases =>
    exact .caseCases known kind value separator body cases
  | @noItems s ended =>
    intro s' (beside : fork.Beside s s')
    have skipped := beside.skipSeparators
    exact ⟨_, .noItems (skipped.peek.trans ended), skipped⟩
  | item known plain _ _ head tail => exact .item known plain head tail
  | function known kind header bodyReads _ same body tail =>
    exact .function known kind header bodyReads same body tail

/-- A program is the same program with the other tokens behind the keyword. -/
theorem Even.accepted (even : fork.Even dialect) {front : List Token} {program : Program}
    (clean : (front ++ fork.keyword :: fork.second).find? (·.kind == .error) = none)
    (accepted : Program.ofTokens dialect (front ++ fork.keyword :: fork.first) =
      some (.ok program)) :
    Program.ofTokens dialect (front ++ fork.keyword :: fork.second) = some (.ok program) := by
  obtain ⟨items, final, reads, ended, tree⟩ := program_sound accepted
  have beside : fork.Beside (.start (front ++ fork.keyword :: fork.first))
      (.start (front ++ fork.keyword :: fork.second)) := .before front rfl rfl
  obtain ⟨final', read, behind⟩ := even.reads reads _ beside
  have ended' : final'.rest = [] := by
    cases behind with
    | before left one => simp [ended] at one
    | behind same => rw [same, ended]
  rw [program_accepted read ended' clean, ← tree]

end Fork

end MatlabFront
