import MatlabFront.Proofs.Expression.Leaves
import MatlabFront.Proofs.Program.Scope
import MatlabFront.Proofs.Program.Words

/-!
# Programs keep their names, numbers and strings

Every name, number and string that is read in a part of a program is written in it: in one of its
expressions, as a name that it declares, or in a word of a command. The tokens that are read over
behind a malformed condition are none of these.
-/

namespace MatlabFront

/-- The names in the head of a function, as they are written in it. -/
def Header.idents (head : Header) : List Ident :=
  head.outputs ++ head.name :: head.params.map Param.ident

variable {dialect : Dialect} {s final : State} {leaf : Leaf}

/-- A name that comes next is kept as an expression. -/
theorem State.Keeps.name {token : Token} (known : s.peek = some token)
    (kind : token.kind = .ident) :
    s.Keeps dialect (Expr.ident (Parser.declared token)).Bears s.next :=
  .leaf known (Token.leaf?_of_ident kind) (Expr.bears_ident.mpr rfl)

/-- A separator in front of statements is no leaf. -/
theorem State.Keeps.skipSeparators {bears : Leaf → Prop} :
    s.Keeps dialect bears s.skipSeparators :=
  .skip s fun _ => Kind.isLeaf_of_isSeparator

/-- What is read over behind a condition holds no leaf, since a statement can begin with one. -/
theorem State.Keeps.resume {bears : Leaf → Prop} : s.Keeps dialect bears s.resume := by
  unfold State.resume
  split
  · exact .refl s
  · next token _ =>
    have logged : s.Keeps dialect bears (s.log (.resynchronized token.pos.line token.text)) :=
      .of_rest rfl
    refine logged.trans (.skip _ fun kind skipped => ?_)
    cases kind <;> first | rfl | cases skipped

/-- The closing keyword of a function is no leaf. -/
theorem State.Keeps.leave {bears : Leaf → Prop} : s.Keeps dialect bears s.leave := by
  unfold State.leave
  dsimp only
  split
  case isTrue closes => exact State.Keeps.behind (.of_rest rfl) closes rfl
  case isFalse => exact .of_rest rfl

/-- The event of a switch holds no leaf. -/
theorem State.Keeps.logged {bears : Leaf → Prop} (keeps : s.Keeps dialect bears final)
    (cases : Surface.Cases) : s.Keeps dialect bears (cases.logged final) := by
  cases cases with
  | case => exact keeps.congr rfl
  | none | otherwise => exact keeps

namespace Command

/-- A token in a word stands for a leaf that the string of the word bears. -/
theorem argument_bears {name : Token} {later word : List Token} {token : Token}
    {fallback : Position} (lenient : dialect = .matlab) (begins : begins (name :: later) = true)
    (inside : word ∈ (words later).1) (among : token ∈ word) :
    ∃ leaf, token.StandsFor dialect (name :: later) leaf ∧ (argument fallback word).Bears leaf := by
  obtain ⟨first, more, rfl⟩ := exists_cons_of_mem_words inside
  by_cases lone : more = [] ∧ first.kind = .string
  · obtain ⟨rfl, kind⟩ := lone
    obtain rfl := List.mem_singleton.mp among
    refine ⟨_, .own (Token.leaf?_of_string kind), .here ?_⟩
    simp [argument, wordText, wordPos, kind, Expr.leaves]
  · refine ⟨_, .word lenient List.suffix_rfl begins inside among, .here ?_⟩
    have text : wordText (first :: more) = String.join ((first :: more).map (·.text)) := by
      cases more with
      | nil =>
        have kind : first.kind ≠ .string := fun kind => lone ⟨rfl, kind⟩
        simp [wordText, kind, String.join]
      | cons => rfl
    simp [argument, wordPos, text, Expr.leaves]

end Command

namespace Parser.CommandTree

variable {name : Token} {words : List (List Token)} {call : Call}

/-- A command bears its name. -/
theorem bears_name (tree : CommandTree name words call) :
    (Expr.call call).Bears (.name (declared name)) := by
  cases tree with
  | plain | load => exact .part (.head _) (Expr.bears_ident.mpr rfl)

/-- Every word of a command is an argument of its call, or else a single name and an output. -/
theorem part_of_mem (tree : CommandTree name words call) {word : List Token}
    (inside : word ∈ words) : Command.argument name.pos word ∈ (Expr.call call).parts ∨
      ∃ target, word = [target] ∧ target.kind = .ident ∧
        .ident (declared target) ∈ (Expr.call call).parts := by
  cases tree with
  | plain words => exact .inl (by simpa [Expr.parts] using .inr ⟨word, inside, rfl⟩)
  | @load file targets names =>
    obtain rfl | later := List.mem_cons.mp inside
    · exact .inl (by simp [Expr.parts])
    · obtain ⟨target, among, rfl⟩ := List.mem_map.mp later
      refine .inr ⟨target, rfl, names target among, ?_⟩
      simp only [Expr.parts, Option.getD_some, List.map_map, List.mem_cons, List.mem_append,
        List.mem_map]
      exact .inr ⟨target, among, rfl⟩

end Parser.CommandTree

namespace Surface

/-- The expressions that are written in a statement or function at the top of a program, with the
names in the head of a function. -/
def Item.written : Item → List Expr
  | .statement written => written.exprs
  | .function head body => head.idents.map .ident ++ exprsAll body

/-- The expressions that are written in a part of a program, with the names in the heads of
functions. -/
def Part.written : Part → List Expr
  | .items written => written.flatMap Item.written
  | part => part.exprs

/-- A command keeps its name and the tokens in its words. -/
theorem command_kept {call : Call} (lenient : dialect = .matlab)
    (begins : Command.begins s.rest = true) (run : Parser.command s = .done (.call call) final) :
    s.Keeps dialect (Expr.call call).Bears final := by
  obtain ⟨name, _, ⟨rfl⟩, known, kind, tree, advances, -, -⟩ := Parser.command_takes run
  have rest : s.rest = name :: s.next.rest := State.rest_of_peek known
  refine ⟨⟨_, advances.rest.symm⟩, fun token inside _ => ?_⟩
  rw [advances.rest, List.cons_append, List.mem_cons, List.mem_append] at inside
  obtain rfl | among | behind := inside
  · exact .inr ⟨_, .own (Token.leaf?_of_ident kind), tree.bears_name⟩
  · obtain ⟨word, found, among⟩ := List.mem_flatten.mp among
    obtain argument | ⟨target, rfl, kind, output⟩ := tree.part_of_mem found
    · rw [rest] at begins ⊢
      obtain ⟨leaf, stands, bears⟩ := Command.argument_bears lenient begins found among
      exact .inr ⟨leaf, stands, .part argument bears⟩
    · obtain rfl := List.mem_singleton.mp among
      exact .inr ⟨_, .own (Token.leaf?_of_ident kind), .part output (Expr.bears_ident.mpr rfl)⟩
  · exact .inl behind

/-- The leaves of names are the names that are declared. -/
theorem Names.kept {names : List Ident} (reads : Names names s final) :
    s.Keeps dialect (BorneBy (names.map .ident)) final := by
  induction reads with
  | stop => exact .refl _
  | name known kind _ tail =>
    exact (((State.Keeps.name known kind).congr (State.note_rest _ _)).or tail).imp
      fun leaf => borneBy_cons.mpr

/-- The leaves of the header of a `for` are in its variable and its range. -/
theorem ForHead.kept {var : Ident} {range : Expr} (reads : ForHead var range s final) :
    s.Keeps dialect (BorneBy [.ident var, range]) final := by
  cases reads with
  | mk known kind same sign expression =>
    subst same
    have behind := State.Keeps.behind (expression.kept dialect) sign rfl
    exact (((State.Keeps.name known kind).congr (State.note_rest _ _)).or behind).imp
      fun leaf => by simp [BorneBy]

/-- The leaves of outputs in brackets are the names of the outputs. -/
theorem BracketedOutputs.kept {names : List Ident} (reads : BracketedOutputs names s final) :
    s.Keeps dialect (BorneBy (names.map .ident)) final := by
  induction reads with
  | close closes => exact .past closes rfl
  | comma comma _ tail => exact .behind tail comma rfl
  | name known kind _ tail =>
    exact ((State.Keeps.name known kind).or tail).imp fun leaf => borneBy_cons.mpr

/-- The leaves in front of the name of a function are the names of its outputs. -/
theorem Outputs.kept {outputs : List Ident} (reads : Outputs outputs s final) :
    s.Keeps dialect (BorneBy (outputs.map .ident)) final := by
  cases reads with
  | bracketed opens names sign => exact .between names.kept opens sign rfl rfl
  | single known kind sign =>
    exact .before ((State.Keeps.name known kind).imp fun leaf bears => ⟨_, .head _, bears⟩) sign rfl
  | none => exact .refl s

/-- The names in the head of a function are kept. -/
theorem Head.kept {pos : Position} {head : Header} (reads : Head pos head s final) :
    s.Keeps dialect (BorneBy (head.idents.map .ident)) final := by
  cases reads with
  | @mk outputs params token _ s₁ _ declares known kind takes =>
    have inputs : s₁.next.Keeps dialect (BorneBy ((params.map Param.ident).map .ident)) final := by
      cases takes with
      | list _ list =>
        refine State.Keeps.imp (list.kept dialect) fun leaf ⟨param, inside, same⟩ => ?_
        exact ⟨_, List.mem_map_of_mem (List.mem_map_of_mem inside), Expr.bears_ident.mpr same⟩
      | none => exact .refl _
    refine (declares.kept.or ((State.Keeps.name known kind).or inputs)).imp fun leaf => ?_
    rw [Header.idents, List.map_append, List.map_cons, borneBy_append, borneBy_cons]
    exact id

/-- What separates a condition from its body holds no leaf. -/
theorem Separated.kept {bears : Leaf → Prop} (separated : Separated dialect s final) :
    s.Keeps dialect bears final := by
  cases separated with
  | separator => exact .refl s
  | resumed => exact .resume

/-- A target bears what the expression bears that it is read from. -/
theorem bears_of_target {expr : Expr} {target : Target}
    (read : Target.ofExpr? expr = some target) (bears : expr.Bears leaf) :
    target.expr.Bears leaf := by
  cases expr with
  | ident =>
    obtain rfl := Option.some.inj read
    exact bears
  | cellIndex object args =>
    obtain rfl := Option.some.inj read
    rw [Expr.bears_iff] at bears ⊢
    exact bears
  | member object field =>
    obtain rfl := Option.some.inj read
    rw [Expr.bears_iff] at bears ⊢
    cases field <;> exact bears
  | flatten object args =>
    obtain rfl := Option.some.inj read
    rw [Expr.bears_iff_parts rfl] at bears
    exact Expr.bears_apply.mpr (borneBy_cons.mp bears)
  | call call =>
    obtain ⟨callee, args, outputs, pos⟩ := call
    cases outputs with
    | some => cases read
    | none =>
      obtain rfl := Option.some.inj read
      rw [Expr.bears_iff_parts rfl, Expr.parts] at bears
      exact Expr.bears_apply.mpr (by simpa [borneBy_cons] using bears)
  | number | string | colon | range | lastIndex | unary | binary | matrix | cell | transpose |
    lambda | handle | parens => cases read

/-- The targets of a row bear what its elements bear. -/
theorem borneBy_of_targets {row : List Expr} {targets : List Target}
    (read : row.map Target.ofExpr? = targets.map some) (borne : BorneBy row leaf) :
    BorneBy (targets.map Target.expr) leaf := by
  obtain ⟨expr, inside, bears⟩ := borne
  have among : Target.ofExpr? expr ∈ targets.map some := read ▸ List.mem_map_of_mem inside
  obtain ⟨target, found, same⟩ := List.mem_map.mp among
  exact ⟨_, List.mem_map_of_mem found, bears_of_target same.symm bears⟩

/-- An assignment bears what its two sides bear. -/
theorem Assigns.borneBy {pos : Position} {left value : Expr} {written : Statement}
    (assigns : Assigns pos left value written) (bears : left.Bears leaf ∨ value.Bears leaf) :
    BorneBy written.exprs leaf := by
  cases assigns with
  | one target =>
    obtain left | value := bears
    · exact ⟨_, .head _, bears_of_target target left⟩
    · exact ⟨_, .tail _ (.head _), value⟩
  | name _ same =>
    refine ⟨_, .head _, (Expr.bears_iff_parts rfl).mpr (borneBy_cons.mpr ?_)⟩
    obtain left | value := bears
    · rw [Expr.bears_iff_parts rfl, Expr.parts, List.flatten_singleton] at left
      exact .inr (borneBy_of_targets same left)
    · exact .inl value
  | call _ same =>
    refine ⟨_, .head _, (Expr.bears_iff_parts rfl).mpr ?_⟩
    rw [Expr.parts, borneBy_cons_append]
    obtain left | value := bears
    · rw [Expr.bears_iff_parts rfl, Expr.parts, List.flatten_singleton] at left
      exact .inr (.inr (borneBy_of_targets same left))
    · rw [Expr.bears_iff_parts rfl, Expr.parts, borneBy_cons_append] at value
      exact value.imp_right fun args => .inl (args.resolve_right not_borneBy_nil)

/-- Every name, number and string that is read in a part of a program is written in it. -/
theorem Reads.kept {part : Part} (reads : Reads dialect part s final) :
    s.Keeps dialect (BorneBy part.written) final := by
  induction reads with
  | blockEnd | noCases | noItems => exact .skipSeparators
  | block _ _ _ _ _ head tail =>
    exact State.Keeps.skipSeparators.trans ((head.or tail).imp fun leaf => borneBy_append.mpr)
  | statement _ _ head => exact head
  | eval _ _ expression =>
    exact State.Keeps.imp (expression.kept dialect) fun leaf bears => ⟨_, .head _, bears⟩
  | assign _ _ left sign kind value assigns =>
    have right := State.Keeps.behind (value.kept dialect) (kind ▸ State.peekKind_of_peek sign) rfl
    exact (State.Keeps.or (left.kept dialect) right).imp fun leaf => assigns.borneBy
  | command _ lenient begins run =>
    exact (command_kept lenient begins run).imp fun leaf bears => ⟨_, .head _, bears⟩
  | branch known kind condition separated _ _ ended body tail =>
    have inside := State.Keeps.or (condition.kept dialect) (separated.kept.trans (body.or tail))
    exact (inside.between (kind ▸ State.peekKind_of_peek known) ended rfl rfl).imp
      fun leaf => borneBy_cons_append.mpr
  | whileLoop known kind condition _ _ ended body =>
    have inside := State.Keeps.or (condition.kept dialect) body
    exact (inside.between (kind ▸ State.peekKind_of_peek known) ended rfl rfl).imp
      fun leaf => borneBy_cons.mpr
  | forLoop known kind _ head _ _ ended body =>
    have inside := State.Keeps.or head.kept body
    exact (inside.between (kind ▸ State.peekKind_of_peek known) ended rfl rfl).imp
      fun leaf => borneBy_append.mpr
  | forEnclosed known kind enclosed head closes _ _ ended body =>
    have parenthesis := State.peekKind_of_headerEnclosed enclosed
    have inside := State.Keeps.or (head.kept.between parenthesis closes rfl rfl) body
    exact (inside.between (kind ▸ State.peekKind_of_peek known) ended rfl rfl).imp
      fun leaf => borneBy_append.mpr
  | switch known subject _ _ ended cases =>
    have inside := State.Keeps.or (subject.kept dialect) cases
    exact ((inside.between known ended rfl rfl).imp fun leaf => borneBy_cons.mpr).logged _
  | tryOnly known kind _ ended body =>
    exact (State.Keeps.between body (kind ▸ State.peekKind_of_peek known) ended rfl rfl).imp
      fun leaf borne => borneBy_append.mpr (.inl borne)
  | tryCatch known kind _ catches _ ended body handler =>
    have inside := (State.Keeps.before body catches rfl).or handler
    exact (inside.between (kind ▸ State.peekKind_of_peek known) ended rfl rfl).imp
      fun leaf => borneBy_append.mpr
  | global known kind names => exact .behind names.kept (kind ▸ State.peekKind_of_peek known) rfl
  | breakLoop known kind | continueLoop known kind | leave known kind =>
    exact .past (kind ▸ State.peekKind_of_peek known) rfl
  | noTail => exact .refl _
  | otherwiseTail known _ body => exact .behind body known rfl
  | branchTail known kind condition _ _ _ body tail =>
    have inside := State.Keeps.or (condition.kept dialect) (body.or tail)
    exact (State.Keeps.behind inside (kind ▸ State.peekKind_of_peek known) rfl).imp
      fun leaf => borneBy_cons_append.mpr
  | otherwiseCases known _ body =>
    exact State.Keeps.skipSeparators.trans (.behind body known rfl)
  | caseCases known kind value _ _ _ body cases =>
    have inside := State.Keeps.or (value.kept dialect) (body.or cases)
    refine State.Keeps.skipSeparators.trans
      ((State.Keeps.behind inside (kind ▸ State.peekKind_of_peek known) rfl).imp fun leaf => ?_)
    exact borneBy_cons_append.mpr
  | item _ _ _ _ head tail =>
    exact State.Keeps.skipSeparators.trans ((head.or tail).imp fun leaf => borneBy_append.mpr)
  | @function head body items token event s s₁ s₂ s₃ known kind header _ _ _ block tail =>
    have opened : s₁.Keeps dialect (BorneBy (exprsAll body)) (s₁.enter head) := .of_rest rfl
    have entered : s₁.Keeps dialect (BorneBy (exprsAll body)) (s₂.leave.log event) :=
      opened.trans ((State.Keeps.trans block .leave).congr rfl)
    have whole := State.Keeps.behind (header.kept.or entered)
      (kind ▸ State.peekKind_of_peek known) rfl
    exact State.Keeps.skipSeparators.trans ((whole.or tail).imp fun leaf borne =>
      borneBy_append.mpr (borne.imp_left borneBy_append.mpr))

end Surface

end MatlabFront
