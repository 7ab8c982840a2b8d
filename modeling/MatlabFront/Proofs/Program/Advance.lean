import MatlabFront.Proofs.Expression.Consumed
import MatlabFront.Proofs.Program.Words

/-!
# Programs are read forwards

Whatever the rules read between two states, some tokens lie between them and are read in order. So
the tokens left behind a part of a program are the last of those left in front of it.
-/

namespace MatlabFront

namespace State

variable {s s₁ : State}

/-- A report takes no token. -/
theorem Reaches.log (head : s.Reaches s₁) (event : Event) : s.Reaches (s₁.log event) :=
  head.congr rfl rfl

/-- Leaving a function takes at most the keyword that closes it. -/
theorem Reaches.leave (head : s.Reaches s₁) : s.Reaches s₁.leave := by
  have left : s.Reaches { s₁ with scope := none } := head.congr rfl rfl
  unfold State.leave
  dsimp only
  split
  · exact left.next
  · exact left

/-- Resynchronising reads on. -/
theorem Reaches.resume (head : s.Reaches s₁) : s.Reaches s₁.resume := by
  unfold State.resume
  split
  · exact head
  · exact (head.log _).skip _

end State

namespace Surface

variable {dialect : Dialect} {s final : State}

/-- Declared names are read forwards. -/
theorem Names.reaches {names : List Ident} (reads : Names names s final) : s.Reaches final := by
  induction reads with
  | @stop s _ => exact .refl s
  | @name _ token s _ _ _ _ tail => exact ((State.Reaches.refl s).next.note token.text).trans tail

/-- The header of a `for` is read forwards. -/
theorem ForHead.reaches {var : Ident} {range : Expr} (reads : ForHead var range s final) :
    s.Reaches final := by
  cases reads with
  | mk _ _ _ _ expression =>
    exact (((State.Reaches.refl s).next.note _).next).trans expression.reaches

/-- Outputs in brackets are read forwards. -/
theorem BracketedOutputs.reaches {names : List Ident} (reads : BracketedOutputs names s final) :
    s.Reaches final := by
  induction reads with
  | @close s _ => exact (State.Reaches.refl s).next
  | @comma _ s _ _ _ tail => exact (State.Reaches.refl s).next.trans tail
  | @name _ _ s _ _ _ _ tail => exact (State.Reaches.refl s).next.trans tail

/-- The outputs of a function are read forwards, with the equals sign behind them. -/
theorem Outputs.reaches {outputs : List Ident} (reads : Outputs outputs s final) :
    s.Reaches final := by
  cases reads with
  | bracketed _ names => exact ((State.Reaches.refl s).next.trans names.reaches).next
  | single => exact (State.Reaches.refl s).next.next
  | none => exact .refl s

/-- The parameters of a function are read forwards. -/
theorem Parameters.reaches {params : List Param} (reads : Parameters params s final) :
    s.Reaches final := by
  cases reads with
  | list _ list => exact list.reaches
  | none => exact .refl s

/-- The head of a function is read forwards. -/
theorem Head.reaches {pos : Position} {head : Header} (reads : Head pos head s final) :
    s.Reaches final := by
  cases reads with
  | mk declares _ _ takes => exact declares.reaches.next.trans takes.reaches

/-- What is read over behind a condition is read forwards. -/
theorem Separated.reaches (separated : Separated dialect s final) : s.Reaches final := by
  cases separated with
  | separator => exact .refl s
  | resumed => exact (State.Reaches.refl s).resume

/-- What is noted of a switch takes no token. -/
theorem Cases.logged_reaches {s₁ : State} (cases : Cases) (reaches : s.Reaches s₁) :
    s.Reaches (cases.logged s₁) := by
  cases cases with
  | case => exact reaches.log _
  | none | otherwise => exact reaches

/-- A part of a program is read forwards. -/
theorem Reads.reaches {part : Part} (reads : Reads dialect part s final) : s.Reaches final := by
  induction reads with
  | @blockEnd _ s _ | @noCases s _ _ | @noItems s _ => exact (State.Reaches.refl s).skip _
  | @block _ _ _ _ s _ _ _ _ _ _ _ head tail | @item _ _ _ s _ _ _ _ _ _ head tail =>
    exact ((State.Reaches.refl s).skip _).trans (head.trans tail)
  | statement _ _ head => exact head
  | eval _ _ expression => exact expression.reaches
  | assign _ _ left _ _ value => exact left.reaches.next.trans value.reaches
  | command _ _ _ run =>
    obtain ⟨_, _, -, command⟩ := Parser.command_takes run
    exact ⟨_, command.advances⟩
  | @branch _ _ _ _ s _ _ _ _ _ _ condition separated _ _ _ body tail =>
    have header := (State.Reaches.refl s).next.trans (condition.reaches.trans separated.reaches)
    exact (header.trans (body.trans tail)).next
  | @whileLoop _ _ _ s _ _ _ _ condition _ _ _ body =>
    exact ((State.Reaches.refl s).next.trans (condition.reaches.trans body)).next
  | @forLoop _ _ _ _ s _ _ _ _ _ head _ _ _ body =>
    exact ((State.Reaches.refl s).next.trans (head.reaches.trans body)).next
  | @forEnclosed _ _ _ _ s _ _ _ _ _ head _ _ _ _ body =>
    exact ((State.Reaches.refl s).next.next.trans (head.reaches.next.trans body)).next
  | @switch _ cases s _ _ _ subject _ _ _ chain =>
    exact cases.logged_reaches
      ((State.Reaches.refl s).next.trans (subject.reaches.trans chain)).next
  | @tryOnly _ _ s _ _ _ _ _ body => exact ((State.Reaches.refl s).next.trans body).next
  | @tryCatch _ _ _ s _ _ _ _ _ _ _ _ body handler =>
    exact (((State.Reaches.refl s).next.trans body).next.trans handler).next
  | @global _ _ _ s _ _ _ names => exact (State.Reaches.refl s).next.trans names.reaches
  | @breakLoop _ s _ _ | @continueLoop _ s _ _ | @leave _ s _ _ =>
    exact (State.Reaches.refl s).next
  | @noTail s _ _ => exact .refl s
  | @otherwiseTail _ s _ _ _ body => exact (State.Reaches.refl s).next.trans body
  | @branchTail _ _ _ _ s _ _ _ _ _ condition _ _ _ body tail =>
    exact (State.Reaches.refl s).next.trans (condition.reaches.trans (body.trans tail))
  | @otherwiseCases _ s _ _ _ body => exact ((State.Reaches.refl s).skip _).next.trans body
  | @caseCases _ _ _ _ s _ _ _ _ _ value _ _ _ body cases =>
    exact ((State.Reaches.refl s).skip _).next.trans (value.reaches.trans (body.trans cases))
  | @function head _ _ _ event s s₁ _ _ _ _ header _ _ _ body tail =>
    have opened := ((State.Reaches.refl s).skip Kind.isSeparator).next.trans header.reaches
    have inside : s.Reaches (s₁.enter head) := opened.congr rfl rfl
    exact ((inside.trans body).leave.log event).trans tail

end Surface

end MatlabFront
