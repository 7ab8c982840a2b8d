import MatlabFront.Proofs.Program.Advance
import MatlabFront.Proofs.Program.Complete

/-!
# Functions and their returns

Functions stand at the top of a program only. Every return in a function carries the outputs of its
head, at any depth, and a return outside of all functions carries none. A function ends with a
return: its body is the block that is read behind its head, with a return of its own where the block
does not end with one.
-/

namespace MatlabFront

mutual

/-- The blocks directly inside a condition and its alternatives. -/
def Conditional.blocks : Conditional → List (List Stmt)
  | .mk _ body otherwise _ => body :: otherwise.blocks

/-- The blocks directly inside an alternative. -/
def Else.blocks : Else → List (List Stmt)
  | .block body => [body]
  | .branch conditional => conditional.blocks

end

/-- The blocks directly inside a statement. The body of a function is none of them, since it has a
scope of its own. -/
def Stmt.blocks : Stmt → List (List Stmt)
  | .branch conditional => conditional.blocks
  | .whileLoop _ body _ | .forLoop _ _ body _ => [body]
  | .tryCatch body handler _ => [body, handler]
  | .assign _ _ _ | .eval _ _ | .call _ | .leave _ _ | .breakLoop _ | .continueLoop _
  | .global _ _ | .function _ => []

/-- A statement stands in a block at some depth, outside of the functions in it. -/
inductive Stmt.Within (inner : Stmt) : List Stmt → Prop where
  | here {body : List Stmt} : inner ∈ body → inner.Within body
  | deeper {body block : List Stmt} {outer : Stmt} : outer ∈ body → block ∈ outer.blocks →
    inner.Within block → inner.Within body

/-- A statement can stand in a function with some outputs. A return has to carry them, and no
function can. -/
def Stmt.Belongs (outputs : List Ident) : Stmt → Prop
  | .leave carried _ => carried = outputs
  | .function _ => False
  | _ => True

/-- Every statement of a block, at any depth, can stand in a function with some outputs. -/
def Scoped (outputs : List Ident) (body : List Stmt) : Prop :=
  ∀ inner : Stmt, inner.Within body → inner.Belongs outputs

variable {outputs : List Ident} {body : List Stmt}

/-- A block stays in its scope when its statements do and the blocks in them. -/
theorem scoped_iff : Scoped outputs body ↔
    ∀ statement ∈ body, statement.Belongs outputs ∧
      ∀ block ∈ statement.blocks, Scoped outputs block := by
  constructor
  · exact fun kept statement inside => ⟨kept statement (.here inside),
      fun block among inner within => kept inner (.deeper inside among within)⟩
  · intro parts inner within
    cases within with
    | here inside => exact (parts inner inside).1
    | deeper outside among within => exact (parts _ outside).2 _ among inner within

/-- An empty block stays in any scope. -/
theorem scoped_nil : Scoped outputs [] := scoped_iff.mpr (by simp)

/-- A block of one statement stays in its scope when the statement does and the blocks in it. -/
theorem scoped_singleton {statement : Stmt} : Scoped outputs [statement] ↔
    statement.Belongs outputs ∧ ∀ block ∈ statement.blocks, Scoped outputs block := by
  rw [scoped_iff, List.forall_mem_singleton]

/-- Two blocks together stay in a scope when each of them does. -/
theorem scoped_append {more : List Stmt} :
    Scoped outputs (body ++ more) ↔ Scoped outputs body ∧ Scoped outputs more := by
  rw [scoped_iff, List.forall_mem_append, ← scoped_iff, ← scoped_iff]

/-- Each statement of a block that stays in a scope does so alone. -/
theorem scoped_of_mem {statement : Stmt} (kept : Scoped outputs body)
    (inside : statement ∈ body) : Scoped outputs [statement] :=
  scoped_singleton.mpr (scoped_iff.mp kept statement inside)

namespace Surface

/-- An alternative is scoped as its blocks are, also when nothing stands in front of it. -/
theorem scoped_alternative {otherwise : Else}
    (blocks : ∀ block ∈ otherwise.blocks, Scoped outputs block) :
    Scoped outputs (alternative otherwise) := by
  cases otherwise with
  | block body => exact blocks body (by simp [Else.blocks])
  | branch conditional => exact scoped_singleton.mpr ⟨trivial, blocks⟩

mutual

/-- The tree of a statement carries the outputs of its function in every return. -/
theorem Statement.keeps (outputs : List Ident) :
    ∀ statement : Statement, Scoped outputs (statement.lower outputs)
  | .assign .. | .assignAll .. | .eval .. | .command .. | .breakLoop .. | .continueLoop ..
  | .global .. => scoped_singleton.mpr ⟨trivial, by simp [Stmt.blocks]⟩
  | .leave .. => scoped_singleton.mpr ⟨rfl, by simp [Stmt.blocks]⟩
  | .branch condition body tail pos => by
    refine scoped_singleton.mpr ⟨trivial, ?_⟩
    simp only [Stmt.blocks, Conditional.blocks, List.forall_mem_cons]
    exact ⟨scopedAll outputs body, tail.keeps outputs⟩
  | .whileLoop condition body pos => by
    refine scoped_singleton.mpr ⟨trivial, ?_⟩
    simpa only [Stmt.blocks, List.forall_mem_singleton] using scopedAll outputs body
  | .forLoop var range body pos => by
    refine scoped_singleton.mpr ⟨trivial, ?_⟩
    simpa only [Stmt.blocks, List.forall_mem_singleton] using scopedAll outputs body
  | .switch subject cases => scoped_alternative (cases.keeps outputs subject)
  | .tryCatch body handler pos => by
    refine scoped_singleton.mpr ⟨trivial, ?_⟩
    simp only [Stmt.blocks, List.forall_mem_cons]
    exact ⟨scopedAll outputs body, scopedAll outputs handler, by simp⟩

/-- The trees of some statements carry the outputs of their function in every return. -/
theorem scopedAll (outputs : List Ident) :
    ∀ statements : List Statement, Scoped outputs (lowerAll outputs statements)
  | [] => scoped_nil
  | first :: statements =>
    scoped_append.mpr ⟨first.keeps outputs, scopedAll outputs statements⟩

/-- What stands behind the first body of an `if` carries the outputs in every return. -/
theorem Tail.keeps (outputs : List Ident) :
    ∀ tail : Tail, ∀ block ∈ (tail.lower outputs).blocks, Scoped outputs block
  | .none => by simp [Tail.lower, Else.blocks, scoped_nil]
  | .otherwise body => by simpa [Tail.lower, Else.blocks] using scopedAll outputs body
  | .branch condition body tail pos => by
    simp only [Tail.lower, Else.blocks, Conditional.blocks, List.forall_mem_cons]
    exact ⟨scopedAll outputs body, tail.keeps outputs⟩

/-- The cases of a switch carry the outputs in every return. -/
theorem Cases.keeps (outputs : List Ident) (subject : Expr) :
    ∀ cases : Cases, ∀ block ∈ (cases.lower outputs subject).blocks, Scoped outputs block
  | .none => by simp [Cases.lower, Else.blocks, scoped_nil]
  | .otherwise body => by simpa [Cases.lower, Else.blocks] using scopedAll outputs body
  | .case value body cases pos => by
    simp only [Cases.lower, Else.blocks, Conditional.blocks, List.forall_mem_cons]
    exact ⟨scopedAll outputs body, cases.keeps outputs subject⟩

end

end Surface

/-- A function carries its outputs in every return and ends with one. -/
structure Function.Closed (function : Function) : Prop where
  keeps : Scoped function.head.outputs function.body
  ends : ∃ pos, function.body.getLast? = some (.leave function.head.outputs pos)

/-- A function is what the parser reads from its keyword on: a head, and a block that becomes its
body. -/
inductive Function.ReadFrom (dialect : Dialect) (s : State) : Function → Prop where
  /-- The block ends with a return. -/
  | whole {keyword : Token} {head : Header} {s₁ s₂ : State} {block : List Stmt}
      {carried : List Ident} {pos : Position} :
    s.peek = some keyword → keyword.kind = .functionKeyword →
      Parser.functionHead (Parser.steps s.rest) keyword.pos s.next = .done head s₁ →
      Parser.block (Parser.steps s.rest) dialect Parser.endsFunction (s₁.enter head) =
        .done block s₂ →
      block.getLast? = some (.leave carried pos) →
      ReadFrom dialect s (.mk { head with usesNargin := s₂.usesNargin } block)
  /-- The block does not end with a return, and one follows it at the position of the keyword. -/
  | extended {keyword : Token} {head : Header} {s₁ s₂ : State} {block : List Stmt} :
    s.peek = some keyword → keyword.kind = .functionKeyword →
      Parser.functionHead (Parser.steps s.rest) keyword.pos s.next = .done head s₁ →
      Parser.block (Parser.steps s.rest) dialect Parser.endsFunction (s₁.enter head) =
        .done block s₂ →
      (∀ carried pos, block.getLast? ≠ some (.leave carried pos)) →
      ReadFrom dialect s (.mk { head with usesNargin := s₂.usesNargin }
        (block ++ [.leave head.outputs keyword.pos]))

namespace Surface

variable {dialect : Dialect} {s final : State}

/-- A statement is a return or is none. -/
theorem isReturn_iff {statement : Stmt} :
    isReturn statement = true ↔ ∃ carried pos, statement = .leave carried pos := by
  cases statement <;> simp [isReturn]

/-- The tree of a function is closed. -/
theorem closed_lower (head : Header) (body : List Statement) :
    (Function.mk head (closed head (lowerAll head.outputs body))).Closed := by
  have inside := scopedAll head.outputs body
  unfold closed
  split
  case isTrue ended =>
    obtain ⟨last, known, leaves⟩ := (Option.any_eq_true _ _).mp ended
    obtain ⟨carried, pos, rfl⟩ := isReturn_iff.mp leaves
    have carries : carried = head.outputs :=
      inside _ (.here (List.mem_of_getLast? known))
    exact ⟨inside, pos, carries ▸ known⟩
  case isFalse =>
    refine ⟨scoped_append.mpr ⟨inside, scoped_singleton.mpr ⟨rfl, by simp [Stmt.blocks]⟩⟩, ?_⟩
    exact ⟨head.pos, List.getLast?_concat⟩

/-- A function that is written in a program is read somewhere in it. -/
theorem Reads.function_of_mem {items : List Item} {head : Header} {body : List Statement}
    (reads : Reads dialect (.items items) s final) (inside : .function head body ∈ items) :
    ∃ (keyword : Token) (opened : Header) (s₀ s₁ s₂ : State), s.Reaches s₀ ∧
      s₀.peek = some keyword ∧ keyword.kind = .functionKeyword ∧
      Head keyword.pos opened s₀.next s₁ ∧
      Reads dialect (.block Parser.endsFunction body) (s₁.enter opened) s₂ ∧
      head = { opened with usesNargin := s₂.usesNargin } := by
  induction items generalizing s with
  | nil => cases inside
  | cons item items ih =>
    have skipped := (State.Reaches.refl s).skip Kind.isSeparator
    cases reads with
    | item known plain headReads tailReads =>
      have later : .function head body ∈ items := by simpa using inside
      obtain ⟨keyword, opened, s₀, s₁, s₂, reaches, rest⟩ := ih tailReads later
      exact ⟨keyword, opened, s₀, s₁, s₂, (skipped.trans headReads.reaches).trans reaches, rest⟩
    | @function opened _ _ keyword event _ s₁ s₂ _ known kind headReads bodyReads tailReads same =>
      obtain ⟨rfl, rfl⟩ | later := List.mem_cons.mp inside
      · exact ⟨keyword, opened, _, s₁, s₂, skipped, known, kind, headReads, bodyReads, rfl⟩
      have entered : s.Reaches (s₁.enter opened) :=
        (skipped.next.trans headReads.reaches).congr rfl rfl
      have behind := ((entered.trans bodyReads.reaches).leave).log event
      obtain ⟨keyword, opened, s₀, s₁, s₂, reaches, rest⟩ := ih tailReads later
      exact ⟨keyword, opened, s₀, s₁, s₂, behind.trans reaches, rest⟩

/-- A function whose head and body are read is what the parser reads. -/
theorem readFrom_of_reads {keyword : Token} {head : Header} {body : List Statement} {s₁ s₂ : State}
    (known : s.peek = some keyword) (kind : keyword.kind = .functionKeyword)
    (headReads : Head keyword.pos head s.next s₁)
    (bodyReads : Reads dialect (.block Parser.endsFunction body) (s₁.enter head) s₂) :
    Function.ReadFrom dialect s (.mk { head with usesNargin := s₂.usesNargin }
      (closed head (lowerAll head.outputs body))) := by
  have shorter := State.length_next known
  have headShrinks := headReads.length_le
  have first : Parser.functionHead (Parser.steps s.rest) keyword.pos s.next = .done head s₁ :=
    headReads.accepted (by unfold Parser.steps; omega)
  have second : Parser.block (Parser.steps s.rest) dialect Parser.endsFunction (s₁.enter head) =
      .done (lowerAll head.outputs body) s₂ := by
    refine bodyReads.accepted ?_
    simp only [Part.Fits, Part.level, State.enter_rest, Parser.steps]
    omega
  unfold closed
  split
  case isTrue ended =>
    obtain ⟨last, found, leaves⟩ := (Option.any_eq_true _ _).mp ended
    obtain ⟨carried, pos, rfl⟩ := isReturn_iff.mp leaves
    exact .whole known kind first second found
  case isFalse unended =>
    have extended := Function.ReadFrom.extended known kind first second
      fun carried pos found => unended (by rw [found]; rfl)
    rwa [← headReads.pos] at extended

end Surface

/-- In an accepted program functions stand at the top only, every return outside of them carries no
outputs, and each function is closed and comes from what is read somewhere in the tokens. -/
theorem Program.scoped_of_accepted {dialect : Dialect} {tokens : List Token} {program : Program}
    (accepted : Program.ofTokens dialect tokens = some (.ok program)) :
    (∀ statement ∈ program.body, (∀ function, statement ≠ .function function) →
      Scoped [] [statement]) ∧
    ∀ function, .function function ∈ program.body → function.Closed ∧
      ∃ s : State, (State.start tokens).Reaches s ∧ function.ReadFrom dialect s := by
  obtain ⟨items, final, reads, -, tree⟩ := Surface.program_sound accepted
  rw [tree]
  constructor
  · intro statement inside plain
    obtain ⟨item, among, lowered⟩ := List.mem_flatMap.mp inside
    cases item with
    | statement written => exact scoped_of_mem (written.keeps []) lowered
    | function head body => exact absurd (List.mem_singleton.mp lowered) (plain _)
  · intro function inside
    obtain ⟨item, among, lowered⟩ := List.mem_flatMap.mp inside
    cases item with
    | statement written => exact (written.keeps [] _ (.here lowered)).elim
    | function head body =>
      obtain ⟨rfl⟩ := List.mem_singleton.mp lowered
      refine ⟨Surface.closed_lower head body, ?_⟩
      obtain ⟨keyword, opened, s, s₁, s₂, reaches, known, kind, headReads, bodyReads, rfl⟩ :=
        reads.function_of_mem among
      exact ⟨s, reaches, Surface.readFrom_of_reads known kind headReads bodyReads⟩

/-- A script returns nothing. The function behind it returns `y` from inside a condition and again
at its end, where no return is written. -/
theorem Program.scoped_of_early_return :
    Scoped [] [.leave [] ⟨1, 0⟩] ∧
      (Function.mk ⟨⟨"f", ⟨2, 20⟩⟩, [], [⟨"y", ⟨2, 16⟩⟩], false, ⟨2, 7⟩⟩
        [.branch (.mk (.ident ⟨"x", ⟨3, 25⟩⟩) [.leave [⟨"y", ⟨2, 16⟩⟩] ⟨4, 27⟩] (.block [])
            ⟨3, 22⟩),
          .assign (.var ⟨"y", ⟨6, 38⟩⟩) (.ident ⟨"x", ⟨6, 42⟩⟩) ⟨6, 40⟩,
          .leave [⟨"y", ⟨2, 16⟩⟩] ⟨2, 7⟩]).Closed := by
  have accepted : Program.ofTokens .strict
      [⟨.returnKeyword, "return", ⟨1, 0⟩⟩, ⟨.newline, "\n", ⟨1, 6⟩⟩,
        ⟨.functionKeyword, "function", ⟨2, 7⟩⟩, ⟨.ident, "y", ⟨2, 16⟩⟩, ⟨.assign, "=", ⟨2, 18⟩⟩,
        ⟨.ident, "f", ⟨2, 20⟩⟩, ⟨.newline, "\n", ⟨2, 21⟩⟩,
        ⟨.ifKeyword, "if", ⟨3, 22⟩⟩, ⟨.ident, "x", ⟨3, 25⟩⟩, ⟨.newline, "\n", ⟨3, 26⟩⟩,
        ⟨.returnKeyword, "return", ⟨4, 27⟩⟩, ⟨.newline, "\n", ⟨4, 33⟩⟩,
        ⟨.endKeyword, "end", ⟨5, 34⟩⟩, ⟨.newline, "\n", ⟨5, 37⟩⟩,
        ⟨.ident, "y", ⟨6, 38⟩⟩, ⟨.assign, "=", ⟨6, 40⟩⟩, ⟨.ident, "x", ⟨6, 42⟩⟩] =
      some (.ok ⟨[.leave [] ⟨1, 0⟩,
        .function (.mk ⟨⟨"f", ⟨2, 20⟩⟩, [], [⟨"y", ⟨2, 16⟩⟩], false, ⟨2, 7⟩⟩
          [.branch (.mk (.ident ⟨"x", ⟨3, 25⟩⟩) [.leave [⟨"y", ⟨2, 16⟩⟩] ⟨4, 27⟩] (.block [])
              ⟨3, 22⟩),
            .assign (.var ⟨"y", ⟨6, 38⟩⟩) (.ident ⟨"x", ⟨6, 42⟩⟩) ⟨6, 40⟩,
            .leave [⟨"y", ⟨2, 16⟩⟩] ⟨2, 7⟩])]⟩) := by cbv
  obtain ⟨script, functions⟩ := Program.scoped_of_accepted accepted
  exact ⟨script _ (.head _) (by simp), (functions _ (.tail _ (.head _))).1⟩

end MatlabFront
