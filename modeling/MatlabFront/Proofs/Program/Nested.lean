import MatlabFront.Proofs.Expression.Nested
import MatlabFront.Proofs.Program.Complete

/-!
# Programs nest their brackets

The tokens of a program that is accepted in the strict dialect are balanced. So wherever the lexer
stands in the text of such a program, the brackets that it keeps are those that are open there, even
though it lets a bracket of any kind close the innermost one.
-/

namespace MatlabFront

/-- What the lexer comes by when it reads a text in a context: the tokens that it has made, the
context behind them and the text that is left. -/
inductive Context.Passes : Context → List Char → List Token → Context → List Char → Prop where
  | here {context : Context} {cs : List Char} : Passes context cs [] context cs
  | skip {context final : Context} {c : Char} {cs rest : List Char} {front : List Token} :
    (context.lexeme c cs).kind = none →
      Passes (context.skip (c :: cs.take (context.lexeme c cs).extra))
        (cs.drop (context.lexeme c cs).extra) front final rest →
      Passes context (c :: cs) front final rest
  | push {context final : Context} {c : Char} {cs rest : List Char} {kind : Kind}
      {front : List Token} :
    (context.lexeme c cs).kind = some kind →
      Passes (context.push kind (c :: cs.take (context.lexeme c cs).extra))
        (cs.drop (context.lexeme c cs).extra) front final rest →
      Passes context (c :: cs)
        (context.token kind (c :: cs.take (context.lexeme c cs).extra) :: front) final rest

/-- The lexer makes the tokens in front of a context that it passes and those behind it, and keeps
the brackets that it takes to be open there. -/
theorem Context.Passes.tokens {context final : Context} {cs rest : List Char} {front : List Token}
    (passes : context.Passes cs front final rest) :
    context.tokens cs = front ++ final.tokens rest ∧
      final.brackets = bracketsBehind context.brackets front := by
  induction passes with
  | here => exact ⟨rfl, rfl⟩
  | skip silent _ ih =>
    rw [Context.tokens, silent]
    exact ih
  | push known _ ih =>
    rw [Context.tokens, known]
    exact ⟨congrArg _ ih.1, ih.2⟩

/-- Separators are no brackets. -/
theorem Kind.plain_of_isSeparator {kind : Kind} (separates : kind.isSeparator = true) :
    kind.Plain := by
  cases kind <;> first | exact ⟨rfl, rfl⟩ | cases separates

namespace State

variable {s s₁ : State}

/-- Separators that are skipped are balanced. -/
theorem Nests.skipSeparators (s : State) : s.Nests s.skipSeparators :=
  .skip fun _ => Kind.plain_of_isSeparator

/-- A report takes no token. -/
theorem Nests.log (head : s.Nests s₁) (event : Event) : s.Nests (s₁.log event) :=
  head.congr rfl rfl

/-- The keyword that may close a function is no bracket. -/
theorem Nests.leave (s : State) : s.Nests s.leave := by
  have left : s.Nests { s with scope := none } := (Nests.refl s).congr rfl rfl
  unfold State.leave
  dsimp only
  split
  · next closes => exact left.trans (.next closes ⟨rfl, rfl⟩)
  · exact left

end State

namespace Surface

variable {s final : State}

/-- Names are balanced. -/
theorem Names.nests {names : List Ident} (reads : Names names s final) : s.Nests final := by
  induction reads with
  | stop => exact .refl _
  | name known kind _ tail =>
    exact ((State.Nests.of_peek known (kind ▸ ⟨rfl, rfl⟩)).note _).trans tail

/-- The header of a `for` is balanced. -/
theorem ForHead.nests {var : Ident} {range : Expr} (reads : ForHead var range s final) :
    s.Nests final := by
  cases reads with
  | mk known kind _ assign expression =>
    exact ((State.Nests.of_peek known (kind ▸ ⟨rfl, rfl⟩)).note _).trans
      ((State.Nests.next assign ⟨rfl, rfl⟩).trans expression.nests)

/-- Outputs in brackets are balanced up to the closing one. -/
theorem BracketedOutputs.encloses {names : List Ident} (reads : BracketedOutputs names s final) :
    s.Encloses .rightBracket final := by
  induction reads with
  | close known => exact .next known
  | comma known _ tail => exact (State.Nests.next known ⟨rfl, rfl⟩).encloses tail
  | name known kind _ tail =>
    exact (State.Nests.of_peek known (kind ▸ ⟨rfl, rfl⟩)).encloses tail

/-- The outputs of a function are balanced, with their brackets and the sign behind them. -/
theorem Outputs.nests {outputs : List Ident} (reads : Outputs outputs s final) : s.Nests final := by
  cases reads with
  | bracketed opens names assign =>
    exact (names.encloses.nests opens .brackets).trans (.next assign ⟨rfl, rfl⟩)
  | single known kind assign =>
    have behind : s.next.peekKind = some .assign := assign
    exact (State.Nests.of_peek known (kind ▸ ⟨rfl, rfl⟩)).trans (.next behind ⟨rfl, rfl⟩)
  | none => exact .refl _

/-- The parameters of a function are balanced. -/
theorem Parameters.nests {params : List Param} (reads : Parameters params s final) :
    s.Nests final := by
  cases reads with
  | list _ list => exact list.nests
  | none => exact .refl _

/-- The head of a function is balanced. -/
theorem Head.nests {pos : Position} {head : Header} (reads : Head pos head s final) :
    s.Nests final := by
  cases reads with
  | mk declares known kind takes =>
    exact declares.nests.trans
      ((State.Nests.of_peek known (kind ▸ ⟨rfl, rfl⟩)).trans takes.nests)

/-- What is noted of a switch takes no token. -/
theorem Cases.logged_nests {s₁ : State} (cases : Cases) (nests : s.Nests s₁) :
    s.Nests (cases.logged s₁) := by
  cases cases with
  | case => exact nests.log _
  | none | otherwise => exact nests

/-- In the strict dialect the tokens of every part of a program are balanced. -/
theorem Reads.nests {part : Part} (reads : Reads .strict part s final) : s.Nests final := by
  induction reads with
  | blockEnd | noCases | noItems => exact .skipSeparators _
  | block _ _ _ _ _ head tail | item _ _ _ _ head tail =>
    exact (State.Nests.skipSeparators _).trans (head.trans tail)
  | statement _ _ head => exact head
  | eval _ _ expression => exact expression.nests
  | assign _ _ left known kind value =>
    exact (Grammar.Reads.nests left).trans
      ((State.Nests.of_peek known (kind ▸ ⟨rfl, rfl⟩)).trans value.nests)
  | command _ lenient => cases lenient
  | branch known kind condition separated _ _ ended body tail =>
    cases separated with
    | resumed _ lenient => cases lenient
    | separator =>
      have header := (State.Nests.of_peek known (kind ▸ ⟨rfl, rfl⟩)).trans condition.nests
      exact (header.trans (body.trans tail)).trans (.next ended ⟨rfl, rfl⟩)
  | whileLoop known kind condition _ _ ended body =>
    have header := (State.Nests.of_peek known (kind ▸ ⟨rfl, rfl⟩)).trans condition.nests
    exact (header.trans body).trans (.next ended ⟨rfl, rfl⟩)
  | forLoop known kind _ head _ _ ended body =>
    have header := (State.Nests.of_peek known (kind ▸ ⟨rfl, rfl⟩)).trans head.nests
    exact (header.trans body).trans (.next ended ⟨rfl, rfl⟩)
  | forEnclosed known kind enclosed head closes _ _ ended body =>
    have opens := State.peekKind_of_headerEnclosed enclosed
    have enclosed := (head.nests.encloses (.next closes)).nests opens .parentheses
    have header := (State.Nests.of_peek known (kind ▸ ⟨rfl, rfl⟩)).trans enclosed
    exact (header.trans body).trans (.next ended ⟨rfl, rfl⟩)
  | switch known subject _ _ ended chain =>
    have header := (State.Nests.next known ⟨rfl, rfl⟩).trans subject.nests
    exact Cases.logged_nests _ ((header.trans chain).trans (.next ended ⟨rfl, rfl⟩))
  | tryOnly known kind _ ended body =>
    exact ((State.Nests.of_peek known (kind ▸ ⟨rfl, rfl⟩)).trans body).trans
      (.next ended ⟨rfl, rfl⟩)
  | tryCatch known kind _ caught _ ended body handler =>
    have guarded := (State.Nests.of_peek known (kind ▸ ⟨rfl, rfl⟩)).trans body
    exact (guarded.trans ((State.Nests.next caught ⟨rfl, rfl⟩).trans handler)).trans
      (.next ended ⟨rfl, rfl⟩)
  | global known kind names =>
    exact (State.Nests.of_peek known (kind ▸ ⟨rfl, rfl⟩)).trans names.nests
  | breakLoop known kind | continueLoop known kind | leave known kind =>
    exact .of_peek known (kind ▸ ⟨rfl, rfl⟩)
  | noTail => exact .refl _
  | otherwiseTail known _ body => exact (State.Nests.next known ⟨rfl, rfl⟩).trans body
  | branchTail known kind condition _ _ _ body tail =>
    have header := (State.Nests.of_peek known (kind ▸ ⟨rfl, rfl⟩)).trans condition.nests
    exact header.trans (body.trans tail)
  | otherwiseCases known _ body =>
    exact (State.Nests.skipSeparators _).trans ((State.Nests.next known ⟨rfl, rfl⟩).trans body)
  | caseCases known kind value _ _ _ body cases =>
    have header := (State.Nests.of_peek known (kind ▸ ⟨rfl, rfl⟩)).trans value.nests
    exact (State.Nests.skipSeparators _).trans (header.trans (body.trans cases))
  | @function head _ _ _ event s s₁ s₂ _ known kind header _ _ _ body tail =>
    have opened := (State.Nests.of_peek known (kind ▸ ⟨rfl, rfl⟩)).trans header.nests
    have inside : s.skipSeparators.Nests (s₁.enter head) := opened.congr rfl rfl
    have closed := (inside.trans body).trans (.leave s₂)
    exact (State.Nests.skipSeparators _).trans ((closed.log event).trans tail)

end Surface

/-- The tokens of a program that the strict dialect accepts are balanced. Wherever they are cut,
the brackets that the lexer takes to be open are the only ones that the front opens, and the back
closes them; and these are the brackets that it keeps behind the front of any text with the tokens. -/
theorem Program.balanced_of_accepted {tokens : List Token} {program : Program}
    (accepted : Program.ofTokens .strict tokens = some (.ok program)) :
    Balanced tokens ∧
    (∀ front back, tokens = front ++ back →
      (∀ brackets, Opens brackets front ↔ brackets = bracketsBehind [] front) ∧
        Closes (bracketsBehind [] front) back) ∧
    ∀ text front context rest, Token.ofText text = tokens →
      Context.start.Passes text.toList front context rest →
      Opens context.brackets front ∧ Closes context.brackets (context.tokens rest) := by
  obtain ⟨items, final, reads, ended, -⟩ := Surface.program_sound accepted
  have balanced : Balanced tokens := by
    obtain ⟨run, advances, balanced⟩ := reads.nests
    have whole : tokens = run := by
      rw [← List.append_nil run, ← ended]
      exact advances.rest
    rwa [whole]
  refine ⟨balanced, fun front back cut => ?_, fun text front context rest made passes => ?_⟩
  · obtain ⟨opens, closes⟩ := (cut ▸ balanced : Balanced (front ++ back)).split
    exact ⟨fun brackets => ⟨fun open_ => open_.bracketsBehind.symm, fun same => same ▸ opens⟩, closes⟩
  · obtain ⟨cut, kept⟩ := passes.tokens
    have whole : tokens = front ++ context.tokens rest := made.symm.trans cut
    rw [kept]
    exact (whole ▸ balanced : Balanced (front ++ context.tokens rest)).split

/-- In `x = f({a(1)})` three brackets are open in front of the number. -/
theorem Program.balanced_of_cell_argument :
    Opens [.leftParen, .leftBrace, .leftParen]
        [⟨.ident, "x", ⟨1, 0⟩⟩, ⟨.assign, "=", ⟨1, 2⟩⟩, ⟨.ident, "f", ⟨1, 4⟩⟩,
          ⟨.leftParen, "(", ⟨1, 5⟩⟩, ⟨.leftBrace, "\x7b", ⟨1, 6⟩⟩, ⟨.ident, "a", ⟨1, 7⟩⟩,
          ⟨.leftParen, "(", ⟨1, 8⟩⟩] ∧
      Closes [.leftParen, .leftBrace, .leftParen]
        [⟨.number, "1", ⟨1, 9⟩⟩, ⟨.rightParen, ")", ⟨1, 10⟩⟩, ⟨.rightBrace, "\x7d", ⟨1, 11⟩⟩,
          ⟨.rightParen, ")", ⟨1, 12⟩⟩] := by
  have accepted : Program.ofTokens .strict
      [⟨.ident, "x", ⟨1, 0⟩⟩, ⟨.assign, "=", ⟨1, 2⟩⟩, ⟨.ident, "f", ⟨1, 4⟩⟩,
        ⟨.leftParen, "(", ⟨1, 5⟩⟩, ⟨.leftBrace, "\x7b", ⟨1, 6⟩⟩, ⟨.ident, "a", ⟨1, 7⟩⟩,
        ⟨.leftParen, "(", ⟨1, 8⟩⟩, ⟨.number, "1", ⟨1, 9⟩⟩, ⟨.rightParen, ")", ⟨1, 10⟩⟩,
        ⟨.rightBrace, "\x7d", ⟨1, 11⟩⟩, ⟨.rightParen, ")", ⟨1, 12⟩⟩] =
      some (.ok ⟨[.assign (.var ⟨"x", ⟨1, 0⟩⟩)
        (.call (.mk (.ident ⟨"f", ⟨1, 4⟩⟩) [.cell [[.call (.mk (.ident ⟨"a", ⟨1, 7⟩⟩)
          [.number "1" ⟨1, 9⟩] none ⟨1, 7⟩)]] ⟨1, 6⟩] none ⟨1, 4⟩)) ⟨1, 2⟩]⟩) := by cbv
  obtain ⟨-, cuts, -⟩ := Program.balanced_of_accepted accepted
  obtain ⟨opens, closes⟩ := cuts [_, _, _, _, _, _, _] [_, _, _, _] rfl
  exact ⟨(opens _).mpr rfl, closes⟩

end MatlabFront
