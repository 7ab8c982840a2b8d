import MatlabFront.Proofs.Expression.Context
import MatlabFront.Proofs.Program.Advance
import MatlabFront.Proofs.Program.Lookahead

/-!
# Statements in front of a newline

Where an input ends, a newline and other tokens may stand as well. What is read in front of the end
is then read in front of the newline: no lookahead tells the end of the input from a newline.
Separators are an exception, because they are skipped as far as they go. So blocks, the alternatives
of an `if` and the cases of a switch are read in the same way when something is left behind them.
-/

namespace MatlabFront

/-- A state stands where another does, with more tokens behind the end of the input. -/
def State.Extends (s : State) (more : List Token) (s' : State) : Prop := s'.rest = s.rest ++ more

namespace State.Extends

variable {s s' : State} {more : List Token} {token : Token}

/-- A token that comes next still does. -/
theorem peek (extended : s.Extends more s') (known : s.peek = some token) :
    s'.peek = some token := by
  rw [State.peek, extended, rest_of_peek known]
  rfl

/-- A kind that comes next still does. -/
theorem peekKind {kind : Kind} (extended : s.Extends more s') (known : s.peekKind = some kind) :
    s'.peekKind = some kind := by
  obtain ⟨token, here, rfl⟩ := peek_of_peekKind known
  exact peekKind_of_peek (extended.peek here)

/-- The next token is the same unless none is left. -/
theorem peekKind_eq (extended : s.Extends more s') (left : s.rest ≠ []) :
    s'.peekKind = s.peekKind := by
  obtain ⟨token, later, rest⟩ := List.exists_cons_of_ne_nil left
  obtain ⟨known, -⟩ := peek_of_rest rest
  rw [peekKind_of_peek known, peekKind_of_peek (extended.peek known)]

/-- A token that comes next is gone over on both sides. -/
theorem next (extended : s.Extends more s') (known : s.peek = some token) :
    s.next.Extends more s'.next := by
  have rest : s'.rest = token :: (s.next.rest ++ more) := by
    rw [extended, rest_of_peek known]
    rfl
  exact (peek_of_rest rest).2

/-- The same of a next token of which only the kind is known. -/
theorem next_of_peekKind {kind : Kind} (extended : s.Extends more s')
    (known : s.peekKind = some kind) : s.next.Extends more s'.next := by
  obtain ⟨token, here, -⟩ := peek_of_peekKind known
  exact extended.next here

/-- Noting a name moves no token on either side. -/
theorem note (extended : s.Extends more s') (name : String) :
    (s.note name).Extends more (s'.note name) := by
  rw [Extends, note_rest, note_rest, extended]

/-- Reports move no token, whatever is reported. -/
theorem log (extended : s.Extends more s') (event event' : Event) :
    (s.log event).Extends more (s'.log event') := extended

/-- The same tokens are skipped when something is left behind them. -/
theorem skip (extended : s.Extends more s') {test : Kind → Bool} (left : (s.skip test).rest ≠ []) :
    (s.skip test).Extends more (s'.skip test) := by
  have stops : (s.rest.dropWhile (test ·.kind)).isEmpty = false :=
    List.isEmpty_eq_false_iff.mpr left
  rw [Extends, State.skip, State.skip, extended, List.dropWhile_append, stops]
  rfl

end State.Extends

/-- Something is left in front of a known token. -/
theorem State.rest_ne_nil {s : State} {kind : Kind} (known : s.peekKind = some kind) :
    s.rest ≠ [] := by
  obtain ⟨token, here, -⟩ := State.peek_of_peekKind known
  rw [State.rest_of_peek here]
  exact List.cons_ne_nil _ _

/-- Something is left where something is left later. -/
theorem State.Reaches.rest_ne_nil {s final : State} (reaches : s.Reaches final)
    (left : final.rest ≠ []) : s.rest ≠ [] := by
  intro ended
  have suffix := reaches.suffix
  rw [ended] at suffix
  exact left (List.suffix_nil.mp suffix)

section Newline

variable {newline : Token} {second : List Token} {s s' final : State}

namespace Command

variable (separates : newline.kind = .newline) (second : List Token)
include separates

/-- No word goes over a newline. -/
theorem endsWords_newline : EndsWords (newline :: second) := by
  rintro _ ⟨⟩
  rw [separates]
  rfl

/-- A command ends at a newline as it does at the end of the input. -/
theorem begins_extended (tokens : List Token) :
    begins (tokens ++ newline :: second) = begins tokens := by
  cases tokens with
  | nil => simp [begins, separates]
  | cons name tokens =>
    rw [List.cons_append, begins, begins, words_before (endsWords_newline separates second)]
    obtain ⟨found, _ | ⟨token, rest⟩⟩ := words tokens
    · have stops : newline.kind.isSeparator = true := by rw [separates]; rfl
      simp [endsStatement, stops]
    · rfl

end Command

namespace Parser

/-- A command at the end of the input is read in front of a newline. -/
theorem command_extended (separates : newline.kind = .newline) {call : Call}
    (run : command s = .done (.call call) final) (extended : s.Extends (newline :: second) s') :
    ∃ final', command s' = .done (.call call) final' ∧
      final.Extends (newline :: second) final' := by
  obtain ⟨name, _, -, taken⟩ := command_takes run
  have known := taken.known
  have words : Command.words s'.next.rest = ((Command.words s.next.rest).1,
      (Command.words s.next.rest).2 ++ newline :: second) := by
    rw [extended.next known]
    exact Command.words_before (Command.endsWords_newline separates second) _
  have same : s'.peek = s.peek := (extended.peek known).trans known.symm
  obtain ⟨final', run', left, rest⟩ := command_of_words run same (by rw [words])
  refine ⟨final', run', ?_⟩
  rw [State.Extends, rest, left, words]

end Parser

namespace State.Extends

variable (separates : newline.kind = .newline) (extended : s.Extends (newline :: second) s')
include separates extended

/-- The next token is the same, or there is none and the newline comes next. -/
theorem peekKind_or :
    s'.peekKind = s.peekKind ∨ s.peekKind = none ∧ s'.peekKind = some .newline := by
  cases left : s.rest with
  | nil =>
    refine .inr ⟨by simp [State.peekKind, left], ?_⟩
    rw [State.peekKind, extended, left]
    exact congrArg some separates
  | cons token later => exact .inl (extended.peekKind_eq (left ▸ List.cons_ne_nil _ _))

/-- A kind other than a newline that does not come next does not come next. -/
theorem peekKind_ne {kind : Kind} (other : s.peekKind ≠ some kind) (plain : kind ≠ .newline) :
    s'.peekKind ≠ some kind := by
  obtain same | ⟨-, last⟩ := extended.peekKind_or separates
  · rwa [same]
  · rw [last]
    exact fun same => plain (Option.some.inj same).symm

/-- A statement without a keyword may begin in front of the newline too. -/
theorem startsPlain (plain : Surface.startsPlain s.peekKind = true) :
    Surface.startsPlain s'.peekKind = true := by
  obtain same | ⟨-, last⟩ := extended.peekKind_or separates
  · rwa [same]
  · rw [last]
    rfl

/-- A newline ends a statement as the end of the input does. -/
theorem atTerminator (terminates : s.atTerminator = true) : s'.atTerminator = true := by
  obtain same | ⟨-, last⟩ := extended.peekKind_or separates
  · rwa [State.atTerminator, same]
  · rw [State.atTerminator, last]
    rfl

/-- A separator that comes next still does. -/
theorem atSeparator (separator : s.atSeparator = true) : s'.atSeparator = true := by
  obtain same | ⟨none, -⟩ := extended.peekKind_or separates
  · rwa [State.atSeparator, same]
  · rw [State.atSeparator, none] at separator
    cases separator

/-- The header of a `for` is enclosed in front of a newline when it is so at the end. -/
theorem headerEnclosed : s'.headerEnclosed = s.headerEnclosed := by
  unfold State.headerEnclosed State.peekKind State.secondKind State.thirdKind
  rw [extended]
  match s.rest with
  | [] => simp [separates]
  | [_] => simp [separates]
  | [_, _] => simp [separates]
  | _ :: _ :: _ :: _ => rfl

/-- No operator follows an expression at the end of the input, and none in front of a newline. -/
theorem expression {power : Nat} {whole : Expr}
    (reads : Grammar.Reads (.expression .outside power whole) s final) :
    ∃ final', Grammar.Reads (.expression .outside power whole) s' final' ∧
      final.Extends (newline :: second) final' := by
  obtain ⟨run, advances, -, moves⟩ := reads.portable trivial
  have rest : s'.rest = run ++ (final.rest ++ newline :: second) := by
    rw [extended, advances.rest, List.append_assoc]
  have follows : Nesting.outside.Follows final.rest (final.rest ++ newline :: second) := by
    cases final.rest with
    | nil => exact .inr ⟨nofun, operatorless_cons (by rw [separates]; rfl)⟩
    | cons token later => exact .inl rfl
  obtain ⟨final', read, moved⟩ := moves s' _ rest nofun follows
  exact ⟨final', read, moved.rest_eq rest⟩

end State.Extends

namespace Surface

variable {dialect : Dialect}

/-- Names at the end of the input are read in front of a newline. -/
theorem Names.extended (separates : newline.kind = .newline) {names : List Ident}
    (reads : Names names s final) (extended : s.Extends (newline :: second) s') :
    ∃ final', Names names s' final' ∧ final.Extends (newline :: second) final' := by
  induction reads generalizing s' with
  | stop other => exact ⟨s', .stop (extended.peekKind_ne separates other (by simp)), extended⟩
  | @name names token _ _ known kind _ ih =>
    obtain ⟨final', read, behind⟩ := ih ((extended.next known).note token.text)
    exact ⟨final', .name (extended.peek known) kind read, behind⟩

/-- The header of a `for` at the end of the input is read in front of a newline. -/
theorem ForHead.extended (separates : newline.kind = .newline) {var : Ident} {range : Expr}
    (reads : ForHead var range s final) (extended : s.Extends (newline :: second) s') :
    ∃ final', ForHead var range s' final' ∧ final.Extends (newline :: second) final' := by
  cases reads with
  | @mk token _ _ known kind name assigned expression =>
    have noted := (extended.next known).note token.text
    obtain ⟨final', read, behind⟩ :=
      (noted.next_of_peekKind assigned).expression separates expression
    exact ⟨final', .mk (extended.peek known) kind name (noted.peekKind assigned) read, behind⟩

/-- Where something is left behind what is read over, the same is read over. -/
theorem Separated.extended {more : List Token} (separated : Separated dialect s final)
    (extended : s.Extends more s') (left : final.rest ≠ []) :
    ∃ final', Separated dialect s' final' ∧ final.Extends more final' := by
  have alive : s.rest ≠ [] := separated.reaches.rest_ne_nil left
  have same : s'.atSeparator = s.atSeparator := by
    rw [State.atSeparator, State.atSeparator, extended.peekKind_eq alive]
  cases separated with
  | separator here => exact ⟨s', .separator (same.trans here), extended⟩
  | resumed here lenient =>
    obtain ⟨token, later, rest⟩ := List.exists_cons_of_ne_nil alive
    obtain ⟨known, -⟩ := State.peek_of_rest rest
    refine ⟨s'.resume, .resumed (same.trans here) lenient, ?_⟩
    rw [State.resume, known] at left ⊢
    rw [State.resume, extended.peek known]
    exact (extended.log _ _).skip left

/-- A part is read in front of a newline: a statement always, and what is made of statements when
something is left behind it. -/
def Part.Extendable (final : State) : Part → Prop
  | .statement _ | .openStatement _ => True
  | .block .. | .tail _ | .cases _ => final.rest ≠ []
  | .items _ => False

/-- What is noted of a switch moves no token. -/
theorem Cases.logged_extended {more : List Token} (cases : Cases) (extended : s.Extends more s') :
    (cases.logged s).Extends more (cases.logged s') := by
  cases cases with
  | case => exact extended.log _ _
  | none | otherwise => exact extended

/-- From every state that extends the one where it is read, a part is read in front of the newline
too, if it is extendable. -/
def Part.Extended (dialect : Dialect) (newline : Token) (second : List Token) (s final : State)
    (part : Part) : Prop :=
  ∀ s' : State, s.Extends (newline :: second) s' → part.Extendable final →
    ∃ final', Reads dialect part s' final' ∧ final.Extends (newline :: second) final'

namespace Part.Extended

variable {condition left value subject range : Expr} {written first : Statement}
  {body handler : List Statement} {tail : Tail} {cases : Cases} {var : Ident} {token : Token}
  {ends : Kind → Bool} {kind : Kind} {s₁ s₂ s₃ s₄ : State}
  (separates : newline.kind = .newline)

/-- A block goes on behind its first statement, which something follows. -/
theorem block (known : s.skipSeparators.peekKind = some kind) (goes : ends kind = false)
    (plain : kind.isBlockKeyword = false)
    (head : Part.Extended dialect newline second s.skipSeparators s₁ (.statement first))
    (tail : Part.Extended dialect newline second s₁ s₂ (.block ends body)) :
    Part.Extended dialect newline second s s₂ (.block ends (first :: body)) := by
  intro s' extended extendable
  have skipped := extended.skip (State.rest_ne_nil known)
  obtain ⟨s₁', one, between⟩ := head _ skipped trivial
  obtain ⟨final', later, behind⟩ := tail _ between extendable
  exact ⟨final', .block (skipped.peekKind known) goes plain one later, behind⟩

include separates

/-- An expression is a statement in front of the newline too. -/
theorem eval (plain : startsPlain s.peekKind = true)
    (noCommand : dialect = .strict ∨ Command.begins s.rest = false)
    (expression : Grammar.Reads (.expression .outside 0 value) s s₁)
    (noAssign : s₁.peekKind ≠ some .assign) :
    Part.Extended dialect newline second s s₁ (.openStatement (.eval value)) := by
  intro s' extended _
  obtain ⟨final', read, behind⟩ := extended.expression separates expression
  have starts := extended.startsPlain separates plain
  have begins := Command.begins_extended separates second s.rest
  have stops := behind.peekKind_ne separates noAssign (by simp)
  rw [← begins, ← extended] at noCommand
  exact ⟨final', .eval starts noCommand read stops, behind⟩

/-- Both sides of an assignment are read in front of the newline. -/
theorem assign (plain : startsPlain s.peekKind = true)
    (noCommand : dialect = .strict ∨ Command.begins s.rest = false)
    (target : Grammar.Reads (.expression .outside 0 left) s s₁)
    (sign : s₁.peek = some token) (assigned : token.kind = .assign)
    (source : Grammar.Reads (.expression .outside 0 value) s₁.next s₂)
    (sort : Assigns token.pos left value written) :
    Part.Extended dialect newline second s s₂ (.openStatement written) := by
  intro s' extended _
  obtain ⟨s₁', readLeft, between⟩ := extended.expression separates target
  obtain ⟨final', readValue, behind⟩ := (between.next sign).expression separates source
  have starts := extended.startsPlain separates plain
  have begins := Command.begins_extended separates second s.rest
  rw [← begins, ← extended] at noCommand
  exact ⟨final', .assign starts noCommand readLeft (between.peek sign) assigned readValue sort,
    behind⟩

/-- The words of a command end at the newline. -/
theorem command {call : Call} (plain : startsPlain s.peekKind = true)
    (lenient : dialect = .matlab) (command : Command.begins s.rest = true)
    (run : Parser.command s = .done (.call call) s₁) :
    Part.Extended dialect newline second s s₁ (.openStatement (.command call)) := by
  intro s' extended _
  obtain ⟨final', read, behind⟩ := Parser.command_extended separates run extended
  have starts := extended.startsPlain separates plain
  have begins := Command.begins_extended separates second s.rest
  rw [← begins, ← extended] at command
  exact ⟨final', .command starts lenient command read, behind⟩

/-- The closing keyword of an `if` is left behind each of its parts, so that none of them ends with
the input. -/
theorem branch (known : s.peek = some token) (opens : token.kind = .ifKeyword)
    (test : Grammar.Reads (.expression .outside 0 condition) s.next s₁)
    (separated : Separated dialect s₁ s₂)
    (bodyReads : Reads dialect (.block Parser.endsBranch body) s₂ s₃)
    (tailReads : Reads dialect (.tail tail) s₃ s₄) (ended : s₄.peekKind = some .endKeyword)
    (block : Part.Extended dialect newline second s₂ s₃ (.block Parser.endsBranch body))
    (more : Part.Extended dialect newline second s₃ s₄ (.tail tail)) :
    Part.Extended dialect newline second s s₄.next
      (.openStatement (.branch condition body tail token.pos)) := by
  intro s' extended _
  have left := State.rest_ne_nil ended
  have bodyLeft := tailReads.reaches.rest_ne_nil left
  obtain ⟨s₁', readCondition, extended₁⟩ := (extended.next known).expression separates test
  obtain ⟨s₂', readSeparator, extended₂⟩ :=
    separated.extended extended₁ (bodyReads.reaches.rest_ne_nil bodyLeft)
  obtain ⟨s₃', readBody, extended₃⟩ := block _ extended₂ bodyLeft
  obtain ⟨s₄', readTail, extended₄⟩ := more _ extended₃ left
  refine ⟨s₄'.next, ?_, extended₄.next_of_peekKind ended⟩
  have ended' := extended₄.peekKind ended
  exact .branch (extended.peek known) opens readCondition readSeparator readBody readTail ended'

/-- The closing keyword of a `while` is left behind its body. -/
theorem whileLoop (known : s.peek = some token) (opens : token.kind = .whileKeyword)
    (test : Grammar.Reads (.expression .outside 0 condition) s.next s₁)
    (separator : s₁.atSeparator = true) (ended : s₂.peekKind = some .endKeyword)
    (block : Part.Extended dialect newline second s₁ s₂ (.block (· == .endKeyword) body)) :
    Part.Extended dialect newline second s s₂.next
      (.openStatement (.whileLoop condition body token.pos)) := by
  intro s' extended _
  obtain ⟨s₁', readCondition, extended₁⟩ := (extended.next known).expression separates test
  have separator' := extended₁.atSeparator separates separator
  obtain ⟨s₂', readBody, extended₂⟩ := block _ extended₁ (State.rest_ne_nil ended)
  refine ⟨s₂'.next, ?_, extended₂.next_of_peekKind ended⟩
  have ended' := extended₂.peekKind ended
  exact .whileLoop (extended.peek known) opens readCondition separator' readBody ended'

/-- The closing keyword of a `for` is left behind its body. -/
theorem forLoop (known : s.peek = some token) (opens : token.kind = .forKeyword)
    (bare : s.next.headerEnclosed = false) (head : ForHead var range s.next s₁)
    (separator : s₁.atSeparator = true) (ended : s₂.peekKind = some .endKeyword)
    (block : Part.Extended dialect newline second s₁ s₂ (.block (· == .endKeyword) body)) :
    Part.Extended dialect newline second s s₂.next
      (.openStatement (.forLoop var range body token.pos)) := by
  intro s' extended _
  have opened := extended.next known
  have bare' := (opened.headerEnclosed separates).trans bare
  obtain ⟨s₁', readHead, extended₁⟩ := head.extended separates opened
  have separator' := extended₁.atSeparator separates separator
  obtain ⟨s₂', readBody, extended₂⟩ := block _ extended₁ (State.rest_ne_nil ended)
  refine ⟨s₂'.next, ?_, extended₂.next_of_peekKind ended⟩
  have ended' := extended₂.peekKind ended
  exact .forLoop (extended.peek known) opens bare' readHead separator' readBody ended'

/-- The same of a `for` with its header in parentheses. -/
theorem forEnclosed (known : s.peek = some token) (opens : token.kind = .forKeyword)
    (enclosed : s.next.headerEnclosed = true) (head : ForHead var range s.next.next s₁)
    (closes : s₁.peekKind = some .rightParen) (separator : s₁.next.atSeparator = true)
    (ended : s₂.peekKind = some .endKeyword)
    (block : Part.Extended dialect newline second s₁.next s₂ (.block (· == .endKeyword) body)) :
    Part.Extended dialect newline second s s₂.next
      (.openStatement (.forLoop var range body token.pos)) := by
  intro s' extended _
  have opened := extended.next known
  have parenthesis := State.peekKind_of_headerEnclosed enclosed
  have enclosed' := (opened.headerEnclosed separates).trans enclosed
  obtain ⟨s₁', readHead, extended₁⟩ :=
    head.extended separates (opened.next_of_peekKind parenthesis)
  have closes' := extended₁.peekKind closes
  have closed := extended₁.next_of_peekKind closes
  have separator' := closed.atSeparator separates separator
  obtain ⟨s₂', readBody, extended₂⟩ := block _ closed (State.rest_ne_nil ended)
  refine ⟨s₂'.next, ?_, extended₂.next_of_peekKind ended⟩
  have ended' := extended₂.peekKind ended
  exact .forEnclosed (extended.peek known) opens enclosed' readHead closes' separator' readBody
    ended'

/-- The closing keyword of a switch is left behind its cases. -/
theorem switch (known : s.peekKind = some .switchKeyword)
    (test : Grammar.Reads (.expression .outside 0 subject) s.next s₁)
    (separator : s₁.atSeparator = true) (ended : s₂.peekKind = some .endKeyword)
    (chain : Part.Extended dialect newline second s₁ s₂ (.cases cases)) :
    Part.Extended dialect newline second s (cases.logged s₂.next)
      (.openStatement (.switch subject cases)) := by
  intro s' extended _
  obtain ⟨s₁', readSubject, extended₁⟩ :=
    (extended.next_of_peekKind known).expression separates test
  have separator' := extended₁.atSeparator separates separator
  obtain ⟨s₂', readCases, extended₂⟩ := chain _ extended₁ (State.rest_ne_nil ended)
  have ended' := extended₂.peekKind ended
  exact ⟨cases.logged s₂'.next,
    .switch (extended.peekKind known) readSubject separator' readCases ended',
    cases.logged_extended (extended₂.next_of_peekKind ended)⟩

/-- An `elseif` is read when something is left behind the alternatives that follow it. -/
theorem branchTail (known : s.peek = some token) (opens : token.kind = .elseIfKeyword)
    (test : Grammar.Reads (.expression .outside 0 condition) s.next s₁)
    (separator : s₁.atSeparator = true) (tailReads : Reads dialect (.tail tail) s₂ s₃)
    (block : Part.Extended dialect newline second s₁ s₂ (.block Parser.endsBranch body))
    (more : Part.Extended dialect newline second s₂ s₃ (.tail tail)) :
    Part.Extended dialect newline second s s₃ (.tail (.branch condition body tail token.pos)) := by
  intro s' extended extendable
  obtain ⟨s₁', readCondition, extended₁⟩ := (extended.next known).expression separates test
  obtain ⟨s₂', readBody, extended₂⟩ :=
    block _ extended₁ (tailReads.reaches.rest_ne_nil extendable)
  obtain ⟨final', readTail, behind⟩ := more _ extended₂ extendable
  refine ⟨final', ?_, behind⟩
  have separator' := extended₁.atSeparator separates separator
  exact .branchTail (extended.peek known) opens readCondition separator' readBody readTail

/-- A `case` is read when something is left behind the cases that follow it. -/
theorem caseCases (known : s.skipSeparators.peek = some token) (opens : token.kind = .caseKeyword)
    (test : Grammar.Reads (.expression .outside 0 value) s.skipSeparators.next s₁)
    (separator : s₁.atSeparator = true) (casesReads : Reads dialect (.cases cases) s₂ s₃)
    (block : Part.Extended dialect newline second s₁ s₂ (.block Parser.endsCase body))
    (more : Part.Extended dialect newline second s₂ s₃ (.cases cases)) :
    Part.Extended dialect newline second s s₃ (.cases (.case value body cases token.pos)) := by
  intro s' extended extendable
  have skipped := extended.skip (State.rest_ne_nil (State.peekKind_of_peek known))
  obtain ⟨s₁', readValue, extended₁⟩ := (skipped.next known).expression separates test
  obtain ⟨s₂', readBody, extended₂⟩ :=
    block _ extended₁ (casesReads.reaches.rest_ne_nil extendable)
  obtain ⟨final', readCases, behind⟩ := more _ extended₂ extendable
  refine ⟨final', ?_, behind⟩
  have separator' := extended₁.atSeparator separates separator
  exact .caseCases (skipped.peek known) opens readValue separator' readBody readCases

omit separates

/-- The closing keyword of a `try` without a handler is left behind its body. -/
theorem tryOnly (known : s.peek = some token) (opens : token.kind = .tryKeyword)
    (ended : s₁.peekKind = some .endKeyword)
    (block : Part.Extended dialect newline second s.next s₁ (.block Parser.endsTry body)) :
    Part.Extended dialect newline second s s₁.next
      (.openStatement (.tryCatch body [] token.pos)) := by
  intro s' extended _
  obtain ⟨s₁', readBody, extended₁⟩ := block _ (extended.next known) (State.rest_ne_nil ended)
  exact ⟨s₁'.next, .tryOnly (extended.peek known) opens readBody (extended₁.peekKind ended),
    extended₁.next_of_peekKind ended⟩

/-- A keyword is left behind each of the two bodies of a `try`. -/
theorem tryCatch (known : s.peek = some token) (opens : token.kind = .tryKeyword)
    (catches : s₁.peekKind = some .catchKeyword) (ended : s₂.peekKind = some .endKeyword)
    (block : Part.Extended dialect newline second s.next s₁ (.block Parser.endsTry body))
    (handled : Part.Extended dialect newline second s₁.next s₂
      (.block (· == .endKeyword) handler)) :
    Part.Extended dialect newline second s s₂.next
      (.openStatement (.tryCatch body handler token.pos)) := by
  intro s' extended _
  obtain ⟨s₁', readBody, extended₁⟩ := block _ (extended.next known) (State.rest_ne_nil catches)
  obtain ⟨s₂', readHandler, extended₂⟩ :=
    handled _ (extended₁.next_of_peekKind catches) (State.rest_ne_nil ended)
  refine ⟨s₂'.next, ?_, extended₂.next_of_peekKind ended⟩
  have catches' := extended₁.peekKind catches
  have ended' := extended₂.peekKind ended
  exact .tryCatch (extended.peek known) opens readBody catches' readHandler ended'

end Part.Extended

/-- What is read at the end of the input is read in front of a newline. -/
theorem Reads.extended (separates : newline.kind = .newline) {part : Part}
    (reads : Reads dialect part s final) : part.Extended dialect newline second s final := by
  induction reads with
  | blockEnd ended =>
    intro s' extended extendable
    have skipped := extended.skip extendable
    exact ⟨_, .blockEnd (by rwa [State.skipSeparators, skipped.peekKind_eq extendable]), skipped⟩
  | block known goes plain _ _ head tail => exact .block known goes plain head tail
  | statement _ terminates head =>
    intro s' extended _
    obtain ⟨final', first, behind⟩ := head _ extended trivial
    exact ⟨final', .statement first (behind.atTerminator separates terminates), behind⟩
  | eval plain noCommand expression noAssign =>
    exact .eval separates plain noCommand expression noAssign
  | assign plain noCommand left sign kind value sort =>
    exact .assign separates plain noCommand left sign kind value sort
  | command plain lenient command run => exact .command separates plain lenient command run
  | branch known kind condition separated bodyReads tailReads ended body tail =>
    exact .branch separates known kind condition separated bodyReads tailReads ended body tail
  | whileLoop known kind condition separator _ ended body =>
    exact .whileLoop separates known kind condition separator ended body
  | forLoop known kind bare head separator _ ended body =>
    exact .forLoop separates known kind bare head separator ended body
  | forEnclosed known kind enclosed head closes separator _ ended body =>
    exact .forEnclosed separates known kind enclosed head closes separator ended body
  | switch known subject separator _ ended chain =>
    exact .switch separates known subject separator ended chain
  | tryOnly known kind _ ended body => exact .tryOnly known kind ended body
  | tryCatch known kind _ catches _ ended body handler =>
    exact .tryCatch known kind catches ended body handler
  | global known kind names =>
    intro s' extended _
    obtain ⟨final', read, behind⟩ := names.extended separates (extended.next known)
    exact ⟨final', .global (extended.peek known) kind read, behind⟩
  | breakLoop known kind =>
    exact fun s' extended _ =>
      ⟨s'.next, .breakLoop (extended.peek known) kind, extended.next known⟩
  | continueLoop known kind =>
    exact fun s' extended _ =>
      ⟨s'.next, .continueLoop (extended.peek known) kind, extended.next known⟩
  | leave known kind =>
    exact fun s' extended _ => ⟨s'.next, .leave (extended.peek known) kind, extended.next known⟩
  | noTail noElseIf noElse =>
    intro s' extended _
    have noElseIf' := extended.peekKind_ne separates noElseIf (by simp)
    have noElse' := extended.peekKind_ne separates noElse (by simp)
    exact ⟨s', .noTail noElseIf' noElse', extended⟩
  | otherwiseTail known _ body =>
    intro s' extended extendable
    obtain ⟨final', read, behind⟩ := body _ (extended.next_of_peekKind known) extendable
    exact ⟨final', .otherwiseTail (extended.peekKind known) read, behind⟩
  | branchTail known kind condition separator _ tailReads body tail =>
    exact .branchTail separates known kind condition separator tailReads body tail
  | noCases noCase noOtherwise =>
    intro s' extended extendable
    have skipped := extended.skip extendable
    have noCase' := skipped.peekKind_ne separates noCase (by simp)
    have noOtherwise' := skipped.peekKind_ne separates noOtherwise (by simp)
    exact ⟨_, .noCases noCase' noOtherwise', skipped⟩
  | otherwiseCases known _ body =>
    intro s' extended extendable
    have skipped := extended.skip (State.rest_ne_nil known)
    obtain ⟨final', read, behind⟩ := body _ (skipped.next_of_peekKind known) extendable
    exact ⟨final', .otherwiseCases (skipped.peekKind known) read, behind⟩
  | caseCases known kind value separator _ casesReads body cases =>
    exact .caseCases separates known kind value separator casesReads body cases
  | noItems | item | function => exact fun _ _ extendable => extendable.elim

end Surface

end Newline

end MatlabFront
