import MatlabFront.Proofs.Program.Complete
import MatlabFront.Proofs.Program.Located
import MatlabFront.Proofs.Tree.Targets

/-!
# Demands on the trees of a program

A demand is made of every expression in the tree of a program, of every call that is a statement and
of every list of global names, at any depth and in the functions too. A program meets it as soon as
what is read meets it and the nodes that are made later keep it: the comparisons of a switch, the
targets of assignments and the calls with outputs.
-/

namespace MatlabFront

/-- What is asked of the trees in a program. -/
structure Demands where
  /-- Asked of the expressions in statements and of those that write their targets. -/
  expr : Expr → Prop
  /-- Asked of the calls that are statements, with their outputs. -/
  call : Call → Prop
  /-- Asked of the names that are declared global together. -/
  names : List Ident → Prop

mutual

/-- A statement and the statements in it meet some demands. -/
def Stmt.Meets (demands : Demands) : Stmt → Prop
  | .assign target value _ => demands.expr target.expr ∧ demands.expr value
  | .eval expr _ => demands.expr expr
  | .call call => demands.call call
  | .branch conditional => conditional.Meets demands
  | .whileLoop condition body _ => demands.expr condition ∧ BlockMeets demands body
  | .forLoop _ range body _ => demands.expr range ∧ BlockMeets demands body
  | .tryCatch body handler _ => BlockMeets demands body ∧ BlockMeets demands handler
  | .leave _ _ | .breakLoop _ | .continueLoop _ => True
  | .global names _ => demands.names names
  | .function function => function.Meets demands

/-- Every statement of a block meets some demands. -/
def BlockMeets (demands : Demands) : List Stmt → Prop
  | [] => True
  | first :: body => first.Meets demands ∧ BlockMeets demands body

/-- A condition, its body and its alternative meet some demands. -/
def Conditional.Meets (demands : Demands) : Conditional → Prop
  | .mk condition body otherwise _ =>
    demands.expr condition ∧ BlockMeets demands body ∧ otherwise.Meets demands

/-- An alternative meets some demands. -/
def Else.Meets (demands : Demands) : Else → Prop
  | .block body => BlockMeets demands body
  | .branch conditional => conditional.Meets demands

/-- The body of a function meets some demands. -/
def Function.Meets (demands : Demands) : Function → Prop
  | .mk _ body => BlockMeets demands body

end

/-- The statements and functions of a program meet some demands. -/
def Program.Meets (demands : Demands) (program : Program) : Prop := BlockMeets demands program.body

variable {demands : Demands} {body more : List Stmt}

/-- A block of one statement meets what the statement does. -/
theorem blockMeets_singleton {statement : Stmt} :
    BlockMeets demands [statement] ↔ statement.Meets demands := by
  simp [BlockMeets]

/-- Two blocks together meet what each of them does. -/
theorem blockMeets_append :
    BlockMeets demands (body ++ more) ↔ BlockMeets demands body ∧ BlockMeets demands more := by
  induction body with
  | nil => simp [BlockMeets]
  | cons first body ih => simp [BlockMeets, ih, and_assoc]

/-- What meets two demands meets a third. -/
structure Demands.Combine (one other both : Demands) : Prop where
  expr : ∀ {expr : Expr}, one.expr expr → other.expr expr → both.expr expr
  call : ∀ {call : Call}, one.call call → other.call call → both.call call
  names : ∀ {names : List Ident}, one.names names → other.names names → both.names names

section

variable {one other both : Demands}

mutual

/-- A statement that meets two demands meets what they combine to. -/
theorem Stmt.Meets.and (combine : one.Combine other both) {statement : Stmt}
    (first : statement.Meets one) (second : statement.Meets other) : statement.Meets both := by
  cases statement with
  | assign => exact ⟨combine.expr first.1 second.1, combine.expr first.2 second.2⟩
  | eval => exact combine.expr first second
  | call => exact combine.call first second
  | branch conditional => exact Conditional.Meets.and combine first second
  | whileLoop condition body | forLoop _ condition body =>
    exact ⟨combine.expr first.1 second.1, BlockMeets.and combine first.2 second.2⟩
  | tryCatch body handler =>
    exact ⟨BlockMeets.and combine first.1 second.1, BlockMeets.and combine first.2 second.2⟩
  | leave | breakLoop | continueLoop => trivial
  | global => exact combine.names first second
  | function function => exact Function.Meets.and combine first second

/-- A block that meets two demands meets what they combine to. -/
theorem BlockMeets.and (combine : one.Combine other both) {body : List Stmt}
    (first : BlockMeets one body) (second : BlockMeets other body) : BlockMeets both body := by
  cases body with
  | nil => trivial
  | cons statement body =>
    exact ⟨Stmt.Meets.and combine first.1 second.1, BlockMeets.and combine first.2 second.2⟩

/-- A conditional that meets two demands meets what they combine to. -/
theorem Conditional.Meets.and (combine : one.Combine other both) {conditional : Conditional}
    (first : conditional.Meets one) (second : conditional.Meets other) : conditional.Meets both := by
  cases conditional with
  | mk condition body otherwise =>
    exact ⟨combine.expr first.1 second.1, BlockMeets.and combine first.2.1 second.2.1,
      Else.Meets.and combine first.2.2 second.2.2⟩

/-- An alternative that meets two demands meets what they combine to. -/
theorem Else.Meets.and (combine : one.Combine other both) {otherwise : Else}
    (first : otherwise.Meets one) (second : otherwise.Meets other) : otherwise.Meets both := by
  cases otherwise with
  | block body => exact BlockMeets.and combine first second
  | branch conditional => exact Conditional.Meets.and combine first second

/-- A function that meets two demands meets what they combine to. -/
theorem Function.Meets.and (combine : one.Combine other both) {function : Function}
    (first : function.Meets one) (second : function.Meets other) : function.Meets both := by
  cases function with
  | mk head body => exact BlockMeets.and combine first second

end

/-- A program that meets two demands meets what they combine to. -/
theorem Program.Meets.and (combine : one.Combine other both) {program : Program}
    (first : program.Meets one) (second : program.Meets other) : program.Meets both :=
  BlockMeets.and combine first second

end

/-- Demands that what is read behind a state meets, and that the nodes which are made of it keep. -/
structure Demands.Kept (demands : Demands) (origin : State) : Prop where
  expr : ∀ {s final : State} {whole : Expr}, origin.Reaches s →
    Grammar.Reads (.expression .outside 0 whole) s final → demands.expr whole
  comparison : ∀ {value subject : Expr} {pos : Position}, demands.expr value →
    demands.expr subject → demands.expr (.binary value .equal subject pos)
  target : ∀ {left : Expr} {target : Target}, demands.expr left → left.Writes target →
    demands.expr target.expr
  outputs : ∀ {row : List Expr} {start : Position} {targets : List Target} {value : Expr}
    {call : Call}, demands.expr (.matrix [row] start) → demands.expr value → row ≠ [] →
      List.Forall₂ Expr.Writes row targets → value.Gives targets call → demands.call call
  command : ∀ {s final : State} {call : Call}, origin.Reaches s →
    Parser.command s = .done (.call call) final → demands.call call
  names : ∀ {name : Ident} {names : List Ident}, demands.names (name :: names)

/-- The statement of an assignment meets what both of its sides meet. -/
theorem Demands.Kept.makes {origin : State} {left value : Expr} {pos : Position} {made : Stmt}
    (kept : demands.Kept origin) (leftMeets : demands.expr left) (valueMeets : demands.expr value)
    (makes : Assignment.Makes pos left value made) : made.Meets demands := by
  cases makes with
  | one writes => exact ⟨kept.target leftMeets writes, valueMeets⟩
  | several filled writes gives => exact kept.outputs leftMeets valueMeets filled writes gives

namespace Surface

/-- The tree of a part of a program meets some demands. -/
def Part.Meets (demands : Demands) : Part → Prop
  | .block _ body => ∀ outputs, BlockMeets demands (lowerAll outputs body)
  | .statement written | .openStatement written =>
    ∀ outputs, BlockMeets demands (written.lower outputs)
  | .tail more => ∀ outputs, (more.lower outputs).Meets demands
  | .cases chain =>
    ∀ outputs subject, demands.expr subject → (chain.lower outputs subject).Meets demands
  | .items written => BlockMeets demands (written.flatMap Item.lower)

/-- An alternative meets the same demands when nothing stands in front of it. -/
theorem blockMeets_alternative {otherwise : Else} (meets : otherwise.Meets demands) :
    BlockMeets demands (alternative otherwise) := by
  cases otherwise with
  | block body => exact meets
  | branch conditional => exact blockMeets_singleton.mpr meets

/-- The return that is put behind the body of a function meets every demand. -/
theorem blockMeets_closed (head : Header) (meets : BlockMeets demands body) :
    BlockMeets demands (closed head body) := by
  obtain same | same := closed_cases head body <;> rw [same]
  · exact meets
  · exact blockMeets_append.mpr ⟨meets, trivial, trivial⟩

variable {dialect : Dialect} {origin s final : State}

/-- What is read behind a state has a tree that meets the demands which are kept from there on. -/
theorem Reads.meets (kept : demands.Kept origin) {part : Part}
    (reads : Reads dialect part s final) : origin.Reaches s → part.Meets demands := by
  induction reads with
  | blockEnd => exact fun _ _ => trivial
  | block _ _ _ first _ head tail =>
    intro reached outputs
    have here := reached.skip Kind.isSeparator
    exact blockMeets_append.mpr ⟨head here outputs, tail (here.trans first.reaches) outputs⟩
  | statement _ _ head => exact head
  | eval _ _ expression =>
    exact fun reached _ => blockMeets_singleton.mpr (kept.expr reached expression)
  | assign _ _ left _ _ value assigns =>
    intro reached outputs
    obtain ⟨made, accepted, tree⟩ := assigns.accepted outputs
    have behind := (reached.trans left.reaches).next
    rw [← tree]
    exact blockMeets_singleton.mpr (kept.makes (kept.expr reached left) (kept.expr behind value)
      (Assignment.statement_eq_ok_iff.mp accepted))
  | command _ _ _ run =>
    exact fun reached _ => blockMeets_singleton.mpr (kept.command reached run)
  | branch _ _ condition separated block _ _ body tail =>
    intro reached outputs
    have inside := (reached.next.trans condition.reaches).trans separated.reaches
    exact blockMeets_singleton.mpr ⟨kept.expr reached.next condition, body inside outputs,
      tail (inside.trans block.reaches) outputs⟩
  | whileLoop _ _ condition _ _ _ body =>
    intro reached outputs
    exact blockMeets_singleton.mpr ⟨kept.expr reached.next condition,
      body (reached.next.trans condition.reaches) outputs⟩
  | forLoop _ _ _ head _ _ _ body =>
    intro reached outputs
    have inside := reached.next.trans head.reaches
    cases head with
    | mk _ _ _ _ range =>
      exact blockMeets_singleton.mpr ⟨kept.expr (reached.next.next.note _).next range,
        body inside outputs⟩
  | forEnclosed _ _ _ head _ _ _ _ body =>
    intro reached outputs
    have inside := (reached.next.next.trans head.reaches).next
    cases head with
    | mk _ _ _ _ range =>
      exact blockMeets_singleton.mpr ⟨kept.expr (reached.next.next.next.note _).next range,
        body inside outputs⟩
  | switch _ subject _ _ _ cases =>
    intro reached outputs
    exact blockMeets_alternative (cases (reached.next.trans subject.reaches) outputs _
      (kept.expr reached.next subject))
  | tryOnly _ _ _ _ body =>
    exact fun reached outputs => blockMeets_singleton.mpr ⟨body reached.next outputs, trivial⟩
  | tryCatch _ _ guarded _ _ _ body handler =>
    intro reached outputs
    have caught := (reached.next.trans guarded.reaches).next
    exact blockMeets_singleton.mpr ⟨body reached.next outputs, handler caught outputs⟩
  | global => exact fun _ _ => blockMeets_singleton.mpr kept.names
  | breakLoop | continueLoop | leave => exact fun _ _ => blockMeets_singleton.mpr trivial
  | noTail => exact fun _ _ => trivial
  | otherwiseTail _ _ body => exact fun reached => body reached.next
  | branchTail _ _ condition _ block _ body tail =>
    intro reached outputs
    have inside := reached.next.trans condition.reaches
    exact ⟨kept.expr reached.next condition, body inside outputs,
      tail (inside.trans block.reaches) outputs⟩
  | noCases => exact fun _ _ _ _ => trivial
  | otherwiseCases _ _ body =>
    exact fun reached outputs _ _ => body (reached.skip Kind.isSeparator).next outputs
  | caseCases _ _ value _ block _ body cases =>
    intro reached outputs subject compared
    have behind := (reached.skip Kind.isSeparator).next
    have inside := behind.trans value.reaches
    exact ⟨kept.comparison (kept.expr behind value) compared, body inside outputs,
      cases (inside.trans block.reaches) outputs subject compared⟩
  | noItems => exact fun _ => trivial
  | item _ _ first _ head tail =>
    intro reached
    have here := reached.skip Kind.isSeparator
    exact blockMeets_append.mpr ⟨head here [], tail (here.trans first.reaches)⟩
  | @function head _ _ _ event _ s₁ s₂ _ _ _ header block _ _ body tail =>
    intro reached
    have opened := (reached.skip Kind.isSeparator).next.trans header.reaches
    have inside : origin.Reaches (s₁.enter head) := opened.congr rfl rfl
    have behind := (inside.trans block.reaches).leave.log event
    exact ⟨blockMeets_closed head (body inside head.outputs), tail behind⟩

end Surface

/-- An accepted program meets the demands that are kept behind its start. -/
theorem Program.meets_of_reads {dialect : Dialect} {tokens : List Token} {program : Program}
    (kept : demands.Kept (.start tokens))
    (accepted : Program.ofTokens dialect tokens = some (.ok program)) : program.Meets demands := by
  obtain ⟨items, final, reads, -, tree⟩ := Surface.program_sound accepted
  rw [Program.Meets, tree]
  exact reads.meets kept (.refl _)

end MatlabFront
