import MatlabFront.Proofs.Expression.Located
import MatlabFront.Proofs.Program.Advance
import MatlabFront.Proofs.Program.Sound

/-!
# Where the nodes of a program stand

Every statement carries the position of its keyword, of its equals sign, or of the expression that
it is. A switch has no node: each of its cases stands at its own keyword, and so does the comparison
with the subject that the case is lowered to. The return that is put behind the body of a function
stands at the keyword of the function. So an accepted program holds no position but those of its
tokens.
-/

namespace MatlabFront

/-- Where the conditions of a chain come from. -/
inductive Link where
  /-- The first condition of the chain stands behind a keyword of this kind. -/
  | keyword (kind : Kind)
  /-- The chain consists of the cases of a switch with this subject. -/
  | case (subject : Expr)

namespace Link

/-- The kind of the keyword at which a condition stands. -/
def kind : Link → Kind
  | keyword kind => kind
  | case _ => .caseKeyword

/-- The condition that is made of what is written behind the keyword. -/
def condition (value : Expr) (pos : Position) : Link → Expr
  | keyword _ => value
  | case subject => .binary value .equal subject pos

/-- Where the next condition of the chain comes from. -/
def next : Link → Link
  | keyword _ => .keyword .elseIfKeyword
  | case subject => .case subject

/-- The positions in what the conditions of a chain share. -/
def positions : Link → List Position
  | keyword _ => []
  | case subject => subject.positions

end Link

mutual

/-- A statement in a function with some outputs is read from some tokens, the keyword in front if it
has one, and each of its nodes carries the position of the token that names it. -/
inductive Stmt.Located (outputs : List Ident) : List Token → Stmt → Prop where
  | assign {left value : Expr} {target : Target} {sign : Token} {front back : List Token} :
    left.Located front → Target.ofExpr? left = some target → sign.kind = .assign →
      value.Located back →
      Stmt.Located outputs (front ++ sign :: back) (.assign target value sign.pos)
  | assignAll {row : List Expr} {start : Position} {targets : List Target} {value : Expr}
      {call : Call} {sign : Token} {front back : List Token} :
    (Expr.matrix [row] start).Located front → row.map Target.ofExpr? = targets.map some →
      sign.kind = .assign → value.Located back →
      Assignment.callWith targets value = .ok call →
      Stmt.Located outputs (front ++ sign :: back) (.call call)
  | eval {expr : Expr} {run : List Token} : expr.Located run →
    Stmt.Located outputs run (.eval expr expr.pos)
  /-- Each word of a command is its first token and the tokens directly behind it. -/
  | command {name : Token} {words : List (Token × List Token)} : name.kind = .ident →
    Stmt.Located outputs (name :: words.flatMap fun word => word.1 :: word.2)
      (.call (.mk (.ident ⟨name.text, name.pos⟩)
        (words.map fun word => .string (Command.wordText (word.1 :: word.2)) word.1.pos) none
        name.pos))
  | load {name first : Token} {more targets : List Token} : name.kind = .ident →
    (∀ target ∈ targets, target.kind = .ident) →
      Stmt.Located outputs (name :: (first :: more ++ targets))
        (.call (.mk (.ident ⟨name.text, name.pos⟩)
          [.string (Command.wordText (first :: more)) first.pos]
          (some (targets.map fun target => .var ⟨target.text, target.pos⟩)) name.pos))
  | branch {conditional : Conditional} {ends : Token} {run : List Token} :
    conditional.Located outputs (.keyword .ifKeyword) run → ends.kind = .endKeyword →
      Stmt.Located outputs (run ++ [ends]) (.branch conditional)
  | switch {subject : Expr} {conditional : Conditional} {keyword ends : Token}
      {front run : List Token} :
    keyword.kind = .switchKeyword → subject.Located front →
      (Else.branch conditional).Located outputs (.case subject) run → ends.kind = .endKeyword →
      Stmt.Located outputs (keyword :: (front ++ (run ++ [ends]))) (.branch conditional)
  | whileLoop {condition : Expr} {body : List Stmt} {keyword ends : Token}
      {front run : List Token} :
    keyword.kind = .whileKeyword → condition.Located front → BlockLocated outputs run body →
      ends.kind = .endKeyword →
      Stmt.Located outputs (keyword :: (front ++ (run ++ [ends])))
        (.whileLoop condition body keyword.pos)
  | forLoop {range : Expr} {body : List Stmt} {keyword name sign ends : Token}
      {opening front run : List Token} :
    keyword.kind = .forKeyword → (∀ token ∈ opening, token.kind = .leftParen) →
      name.kind = .ident → sign.kind = .assign → range.Located front →
      BlockLocated outputs run body → ends.kind = .endKeyword →
      Stmt.Located outputs (keyword :: (opening ++ name :: sign :: (front ++ (run ++ [ends]))))
        (.forLoop ⟨name.text, name.pos⟩ range body keyword.pos)
  | tryCatch {body handler : List Stmt} {keyword ends : Token} {front back : List Token} :
    keyword.kind = .tryKeyword → BlockLocated outputs front body →
      BlockLocated outputs back handler → ends.kind = .endKeyword →
      Stmt.Located outputs (keyword :: (front ++ (back ++ [ends])))
        (.tryCatch body handler keyword.pos)
  | leave {keyword : Token} : keyword.kind = .returnKeyword →
    Stmt.Located outputs [keyword] (.leave outputs keyword.pos)
  | breakLoop {keyword : Token} : keyword.kind = .breakKeyword →
    Stmt.Located outputs [keyword] (.breakLoop keyword.pos)
  | continueLoop {keyword : Token} : keyword.kind = .continueKeyword →
    Stmt.Located outputs [keyword] (.continueLoop keyword.pos)
  | global {keyword : Token} {names : List Token} : keyword.kind = .globalKeyword →
    (∀ name ∈ names, name.kind = .ident) →
      Stmt.Located outputs (keyword :: names)
        (.global (names.map fun name => ⟨name.text, name.pos⟩) keyword.pos)

/-- Some statements are read from some tokens in order. Separators stand between them, and what
belongs to no statement. -/
inductive BlockLocated (outputs : List Ident) : List Token → List Stmt → Prop where
  | nil : BlockLocated outputs [] []
  | skip {body : List Stmt} {token : Token} {run : List Token} : BlockLocated outputs run body →
    BlockLocated outputs (token :: run) body
  | cons {first : Stmt} {body : List Stmt} {front back : List Token} :
    first.Located outputs front → BlockLocated outputs back body →
      BlockLocated outputs (front ++ back) (first :: body)

/-- A condition with its body and its alternatives is read from some tokens, its keyword in
front. -/
inductive Conditional.Located (outputs : List Ident) : Link → List Token → Conditional → Prop where
  | mk {link : Link} {value : Expr} {body : List Stmt} {otherwise : Else} {keyword : Token}
      {front inside back : List Token} :
    keyword.kind = link.kind → value.Located front → BlockLocated outputs inside body →
      otherwise.Located outputs link.next back →
      Conditional.Located outputs link (keyword :: (front ++ (inside ++ back)))
        (.mk (link.condition value keyword.pos) body otherwise keyword.pos)

/-- An alternative is read from some tokens, in a chain of conditions. -/
inductive Else.Located (outputs : List Ident) : Link → List Token → Else → Prop where
  | block {link : Link} {body : List Stmt} {run : List Token} : BlockLocated outputs run body →
    Else.Located outputs link run (.block body)
  | skip {link : Link} {otherwise : Else} {token : Token} {run : List Token} :
    otherwise.Located outputs link run → Else.Located outputs link (token :: run) otherwise
  | branch {link : Link} {conditional : Conditional} {run : List Token} :
    conditional.Located outputs link run → Else.Located outputs link run (.branch conditional)

end

/-- The names in the head of a function are those of some tokens. -/
structure Header.Located (run : List Token) (head : Header) : Prop where
  name : ∃ token ∈ run, token.kind = .ident ∧ head.name = ⟨token.text, token.pos⟩
  outputs : ∀ output ∈ head.outputs,
    ∃ token ∈ run, token.kind = .ident ∧ output = ⟨token.text, token.pos⟩
  params : ∀ param ∈ head.params, ∃ token ∈ run, param.DeclaredBy token

/-- The statements and functions of a program are read from some tokens in order. The body of a
function is what is written there or else has one more return, at the keyword of the function. -/
inductive TopLocated : List Token → List Stmt → Prop where
  | nil : TopLocated [] []
  | skip {body : List Stmt} {token : Token} {run : List Token} : TopLocated run body →
    TopLocated (token :: run) body
  | block {block body : List Stmt} {front back : List Token} :
    BlockLocated [] front block → TopLocated back body → TopLocated (front ++ back) (block ++ body)
  | function {head : Header} {written closed body : List Stmt} {keyword : Token}
      {front inside back : List Token} :
    keyword.kind = .functionKeyword → head.pos = keyword.pos → head.Located front →
      BlockLocated head.outputs inside written →
      closed = written ∨ closed = written ++ [.leave head.outputs keyword.pos] →
      TopLocated back body →
      TopLocated (keyword :: (front ++ (inside ++ back))) (.function (.mk head closed) :: body)

variable {outputs : List Ident} {body more : List Stmt} {run front back : List Token}

namespace BlockLocated

/-- Tokens in front of a block may belong to none of its statements. -/
theorem behind (located : BlockLocated outputs run body) (gap : List Token) :
    BlockLocated outputs (gap ++ run) body := by
  induction gap with
  | nil => exact located
  | cons token gap ih => exact .skip ih

/-- Tokens that belong to no statement. -/
theorem of_gap (gap : List Token) : BlockLocated outputs gap [] := by
  simpa using behind .nil gap

/-- A statement alone is a block. -/
theorem single {stmt : Stmt} (located : stmt.Located outputs run) :
    BlockLocated outputs run [stmt] := by
  simpa using BlockLocated.cons located .nil

/-- Two blocks stand one behind the other when each stands where it should. -/
theorem append : ∀ {front : List Token} {body : List Stmt}, BlockLocated outputs front body →
    BlockLocated outputs back more → BlockLocated outputs (front ++ back) (body ++ more)
  | _, _, .nil, tail => tail
  | _, _, .skip later, tail => .skip (later.append tail)
  | _, _, .cons first later, tail => by
    rw [List.append_assoc]
    exact .cons first (later.append tail)

/-- Tokens behind a block may belong to none of its statements. -/
theorem before (located : BlockLocated outputs run body) (gap : List Token) :
    BlockLocated outputs (run ++ gap) body := by
  simpa using located.append (of_gap gap)

end BlockLocated

namespace Else.Located

variable {link : Link} {otherwise : Else}

/-- Tokens in front of an alternative may belong to no statement. -/
theorem behind (located : otherwise.Located outputs link run) (gap : List Token) :
    otherwise.Located outputs link (gap ++ run) := by
  induction gap with
  | nil => exact located
  | cons token gap ih => exact .skip ih

/-- A block that is an alternative is read from its tokens. -/
theorem block_inv : ∀ {run : List Token}, (Else.block body).Located outputs link run →
    BlockLocated outputs run body
  | _, .block located => located
  | _, .skip later => .skip later.block_inv

end Else.Located

namespace TopLocated

/-- Tokens in front of the top of a program may belong to nothing. -/
theorem behind (located : TopLocated run body) (gap : List Token) :
    TopLocated (gap ++ run) body := by
  induction gap with
  | nil => exact located
  | cons token gap ih => exact .skip ih

/-- Tokens that belong to nothing. -/
theorem of_gap (gap : List Token) : TopLocated gap [] := by
  simpa using behind .nil gap

end TopLocated

variable {dialect : Dialect} {s final : State}

namespace Surface

/-- Declared names stand at the tokens that are read, which are names all of them. -/
theorem Names.located {names : List Ident} (reads : Names names s final) :
    ∃ run, s.Advances run final ∧ (∀ token ∈ run, token.kind = .ident) ∧
      names = run.map Parser.declared := by
  induction reads with
  | @stop s _ => exact ⟨[], .refl s, by simp, rfl⟩
  | @name names token s s₁ known kind _ tail =>
    obtain ⟨run, advances, kinds, rfl⟩ := tail
    exact ⟨token :: run, ((State.Advances.next known).note token.text).trans advances,
      List.forall_mem_cons.mpr ⟨kind, kinds⟩, rfl⟩

/-- The variable of a `for` stands at its own token, and the range behind the sign. -/
theorem ForHead.located {var : Ident} {range : Expr} (reads : ForHead var range s final) :
    ∃ name sign run, s.Advances (name :: sign :: run) final ∧ name.kind = .ident ∧
      var = Parser.declared name ∧ sign.kind = .assign ∧ range.Located run := by
  cases reads with
  | @mk token _ _ known kind same assigned expression =>
    obtain ⟨sign, found, assign⟩ := State.peek_of_peekKind assigned
    obtain ⟨run, advances, ended⟩ := expression.located
    have named := (State.Advances.next known).note token.text
    exact ⟨token, sign, run, named.trans (advances.cons found), kind, same, assign, ended.located⟩

/-- Each output in brackets stands at a name between them. -/
theorem BracketedOutputs.located {names : List Ident} (reads : BracketedOutputs names s final) :
    ∃ run, s.Advances run final ∧
      ∀ name ∈ names, ∃ token ∈ run, token.kind = .ident ∧ name = Parser.declared token := by
  induction reads with
  | close closes =>
    obtain ⟨bracket, found, -⟩ := State.peek_of_peekKind closes
    exact ⟨[bracket], .next found, by simp⟩
  | comma comma _ tail =>
    obtain ⟨token, found, -⟩ := State.peek_of_peekKind comma
    obtain ⟨run, advances, names⟩ := tail
    refine ⟨token :: run, advances.cons found, fun name inside => ?_⟩
    obtain ⟨other, later, word⟩ := names name inside
    exact ⟨other, .tail _ later, word⟩
  | @name names token s s₁ known kind _ tail =>
    obtain ⟨run, advances, names⟩ := tail
    refine ⟨token :: run, advances.cons known, List.forall_mem_cons.mpr ⟨?_, ?_⟩⟩
    · exact ⟨token, .head _, kind, rfl⟩
    · intro name inside
      obtain ⟨other, later, word⟩ := names name inside
      exact ⟨other, .tail _ later, word⟩

/-- Each output of a function stands at a name in front of the sign. -/
theorem Outputs.located {outputs : List Ident} (reads : Outputs outputs s final) :
    ∃ run, s.Advances run final ∧
      ∀ output ∈ outputs, ∃ token ∈ run, token.kind = .ident ∧ output = Parser.declared token := by
  cases reads with
  | bracketed opens names sign =>
    obtain ⟨bracket, here, -⟩ := State.peek_of_peekKind opens
    obtain ⟨run, advances, names⟩ := names.located
    obtain ⟨assign, found, -⟩ := State.peek_of_peekKind sign
    refine ⟨bracket :: (run ++ [assign]), .cons here (advances.concat found), fun name inside => ?_⟩
    obtain ⟨token, among, word⟩ := names name inside
    exact ⟨token, .tail _ (List.mem_append_left _ among), word⟩
  | @single token s known kind sign =>
    have behind : s.next.peekKind = some .assign := sign
    obtain ⟨assign, found, -⟩ := State.peek_of_peekKind behind
    refine ⟨[token, assign], .cons known (.next found), List.forall_mem_singleton.mpr ?_⟩
    exact ⟨token, .head _, kind, rfl⟩
  | none => exact ⟨[], .refl s, by simp⟩

/-- Each parameter of a function stands at a token that declares it. -/
theorem Parameters.located {params : List Param} (reads : Parameters params s final) :
    ∃ run, s.Advances run final ∧ ∀ param ∈ params, ∃ token ∈ run, param.DeclaredBy token := by
  cases reads with
  | list _ list =>
    obtain ⟨run, advances, opens, inside, closes, rfl, -, -, declared⟩ := list.located
    refine ⟨_, advances, fun param among => ?_⟩
    obtain ⟨token, found, declared⟩ := declared param among
    exact ⟨token, by simp [found], declared⟩
  | none => exact ⟨[], .refl s, by simp⟩

/-- The names in the head of a function stand at their tokens. -/
theorem Head.located {pos : Position} {head : Header} (reads : Head pos head s final) :
    ∃ run, s.Advances run final ∧ head.Located run := by
  cases reads with
  | @mk outputs params token _ s₁ _ declares known kind takes =>
    obtain ⟨front, first, outputs⟩ := declares.located
    obtain ⟨back, second, params⟩ := takes.located
    refine ⟨front ++ token :: back, first.trans (second.cons known), ⟨token, by simp, kind, rfl⟩,
      fun output inside => ?_, fun param inside => ?_⟩
    · obtain ⟨other, among, word⟩ := outputs output inside
      exact ⟨other, List.mem_append_left _ among, word⟩
    · obtain ⟨other, among, declared⟩ := params param inside
      exact ⟨other, List.mem_append_right _ (.tail _ among), declared⟩

/-- Words that are not empty are their first tokens and the tokens behind these. -/
theorem exists_firsts {found : List (List Token)}
    (parts : ∀ word ∈ found, ∃ first more, word = first :: more) :
    ∃ words : List (Token × List Token), found = words.map fun word => word.1 :: word.2 := by
  induction found with
  | nil => exact ⟨[], rfl⟩
  | cons word found ih =>
    obtain ⟨⟨first, more, rfl⟩, later⟩ := List.forall_mem_cons.mp parts
    obtain ⟨words, rfl⟩ := ih later
    exact ⟨(first, more) :: words, rfl⟩

/-- A command and each of its words stand at their first tokens. -/
theorem command_located {written : Stmt} (run : Parser.command s = .done written final) :
    ∃ run, s.Advances run final ∧ ∀ outputs, written.Located outputs run := by
  obtain ⟨name, call, rfl, read⟩ := Parser.command_takes run
  refine ⟨_, read.advances, fun outputs => ?_⟩
  have parts : ∀ word ∈ (Command.words s.next.rest).1, ∃ first more, word = first :: more :=
    fun word inside => Command.exists_cons_of_mem_words inside
  have tree := read.tree
  generalize (Command.words s.next.rest).1 = found at parts tree
  cases tree with
  | plain =>
    obtain ⟨words, rfl⟩ := exists_firsts parts
    rw [← List.flatMap_def, List.map_map]
    exact .command read.kind
  | @load file targets names =>
    obtain ⟨first, more, rfl⟩ := parts file (.head _)
    have single : (targets.map fun target => [target]).flatten = targets := by
      rw [← List.flatMap_def, List.flatMap_singleton']
    rw [List.flatten_cons, single]
    exact .load read.kind names

/-- The event of a switch takes no token. -/
theorem Cases.logged_advances {run : List Token} (cases : Cases) (advances : s.Advances run final) :
    s.Advances run (cases.logged final) := by
  cases cases with
  | case => exact ⟨advances.rest, advances.consumed⟩
  | none | otherwise => exact advances

/-- The statements that a switch comes to stand where they should. -/
theorem switch_located {subject : Expr} {otherwise : Else} {keyword ends : Token}
    {front run : List Token} (kind : keyword.kind = .switchKeyword)
    (value : subject.Located front) (chain : otherwise.Located outputs (.case subject) run)
    (last : ends.kind = .endKeyword) :
    BlockLocated outputs (keyword :: (front ++ (run ++ [ends]))) (alternative otherwise) := by
  cases otherwise with
  | block body => exact .skip ((chain.block_inv.before [ends]).behind front)
  | branch conditional => exact .single (.switch kind value chain last)

/-- The body of a function is what is written there, with at most a return behind it. -/
theorem closed_cases (head : Header) (body : List Stmt) :
    closed head body = body ∨ closed head body = body ++ [.leave head.outputs head.pos] := by
  unfold closed
  split
  · exact .inl rfl
  · exact .inr rfl

/-- A run of tokens is a part of a program, each node of which stands where it should. -/
def Part.Located (run : List Token) : Part → Prop
  | .block _ body => ∀ outputs, BlockLocated outputs run (lowerAll outputs body)
  | .statement written | .openStatement written =>
    ∀ outputs, BlockLocated outputs run (written.lower outputs)
  | .tail more => ∀ outputs, (more.lower outputs).Located outputs (.keyword .elseIfKeyword) run
  | .cases chain =>
    ∀ outputs subject, (chain.lower outputs subject).Located outputs (.case subject) run
  | .items written => TopLocated run (written.flatMap Item.lower)

/-- A part of a program is read from the tokens between two states, and each of its nodes stands where
it should. -/
def Part.LocatedBetween (s final : State) (part : Part) : Prop :=
  ∃ run, s.Advances run final ∧ part.Located run

namespace Part.LocatedBetween

variable {condition left value subject range : Expr} {written : Statement} {first : Statement}
  {body handler : List Statement} {items : List Item} {tail : Tail} {cases : Cases}
  {token : Token} {ends : Kind → Bool} {s s₁ s₂ s₃ s₄ : State}

/-- A block stands where its first statement and the rest of it do, with separators in front. -/
theorem block (head : LocatedBetween s.skipSeparators s₁ (.statement first))
    (tail : LocatedBetween s₁ s₂ (.block ends body)) :
    LocatedBetween s s₂ (.block ends (first :: body)) := by
  obtain ⟨front, one, statement⟩ := head
  obtain ⟨back, two, block⟩ := tail
  refine ⟨_, (State.Advances.skip s _).trans (one.trans two), fun outputs => ?_⟩
  exact .behind ((statement outputs).append (block outputs)) _

/-- An assignment stands at its sign if it has one target, and at its value if it has several. -/
theorem assign (target : Grammar.Reads (.expression .outside 0 left) s s₁)
    (sign : s₁.peek = some token) (kind : token.kind = .assign)
    (source : Grammar.Reads (.expression .outside 0 value) s₁.next s₂)
    (assigns : Assigns token.pos left value written) :
    LocatedBetween s s₂ (.openStatement written) := by
  obtain ⟨front, one, target⟩ := target.located
  obtain ⟨back, two, source⟩ := source.located
  refine ⟨_, one.trans (two.cons sign), fun outputs => ?_⟩
  cases assigns with
  | one read => exact .single (.assign target.located read kind source.located)
  | name _ read => exact .single (.assignAll target.located read kind source.located rfl)
  | call _ read => exact .single (.assignAll target.located read kind source.located rfl)

/-- An `if` stands at its keyword. What is skipped behind its condition belongs to no statement. -/
theorem branch (known : s.peek = some token) (kind : token.kind = .ifKeyword)
    (test : Grammar.Reads (.expression .outside 0 condition) s.next s₁)
    (separated : Separated dialect s₁ s₂) (ended : s₄.peekKind = some .endKeyword)
    (block : LocatedBetween s₂ s₃ (.block Parser.endsBranch body))
    (more : LocatedBetween s₃ s₄ (.tail tail)) :
    LocatedBetween s s₄.next (.openStatement (.branch condition body tail token.pos)) := by
  obtain ⟨front, one, test⟩ := test.located
  obtain ⟨gap, two⟩ := separated.reaches
  obtain ⟨run, three, block⟩ := block
  obtain ⟨back, four, alternative⟩ := more
  obtain ⟨ends, found, last⟩ := State.peek_of_peekKind ended
  have inside := one.trans (two.trans (three.trans four))
  refine ⟨_, (inside.cons known).concat found, fun outputs => ?_⟩
  rw [← List.append_assoc gap]
  have whole : Conditional.Located outputs (.keyword .ifKeyword) _ _ :=
    .mk kind test.located ((block outputs).behind gap) (alternative outputs)
  exact .single (.branch whole last)

/-- A `while` stands at its keyword. -/
theorem whileLoop (known : s.peek = some token) (kind : token.kind = .whileKeyword)
    (test : Grammar.Reads (.expression .outside 0 condition) s.next s₁)
    (ended : s₂.peekKind = some .endKeyword)
    (block : LocatedBetween s₁ s₂ (.block (· == .endKeyword) body)) :
    LocatedBetween s s₂.next (.openStatement (.whileLoop condition body token.pos)) := by
  obtain ⟨front, one, test⟩ := test.located
  obtain ⟨run, two, block⟩ := block
  obtain ⟨ends, found, last⟩ := State.peek_of_peekKind ended
  refine ⟨_, .cons known (one.trans (two.concat found)), fun outputs => ?_⟩
  exact .single (.whileLoop kind test.located (block outputs) last)

/-- A `for` stands at its keyword, and its variable at a token of its own. -/
theorem forLoop {var : Ident} (known : s.peek = some token) (kind : token.kind = .forKeyword)
    (head : ForHead var range s.next s₁) (ended : s₂.peekKind = some .endKeyword)
    (block : LocatedBetween s₁ s₂ (.block (· == .endKeyword) body)) :
    LocatedBetween s s₂.next (.openStatement (.forLoop var range body token.pos)) := by
  obtain ⟨name, sign, front, one, word, rfl, assign, range⟩ := head.located
  obtain ⟨run, two, block⟩ := block
  obtain ⟨ends, found, last⟩ := State.peek_of_peekKind ended
  refine ⟨_, .cons known (one.trans (two.concat found)), fun outputs => ?_⟩
  apply BlockLocated.single
  exact @Stmt.Located.forLoop _ _ _ _ _ _ _ [] _ _ kind (List.forall_mem_nil _) word assign range
    (block outputs) last

/-- A `for` with its header in parentheses stands at its keyword too. -/
theorem forEnclosed {var : Ident} (known : s.peek = some token) (kind : token.kind = .forKeyword)
    (enclosed : s.next.headerEnclosed = true) (head : ForHead var range s.next.next s₁)
    (closes : s₁.peekKind = some .rightParen) (ended : s₂.peekKind = some .endKeyword)
    (block : LocatedBetween s₁.next s₂ (.block (· == .endKeyword) body)) :
    LocatedBetween s s₂.next (.openStatement (.forLoop var range body token.pos)) := by
  have parenthesis := State.peekKind_of_headerEnclosed enclosed
  obtain ⟨bracket, here, opening⟩ := State.peek_of_peekKind parenthesis
  obtain ⟨name, sign, front, one, word, rfl, assign, range⟩ := head.located
  obtain ⟨close, shut, -⟩ := State.peek_of_peekKind closes
  obtain ⟨run, two, block⟩ := block
  obtain ⟨ends, found, last⟩ := State.peek_of_peekKind ended
  refine ⟨_, .cons known (.cons here (one.trans (.cons shut (two.concat found)))),
    fun outputs => ?_⟩
  apply BlockLocated.single
  exact @Stmt.Located.forLoop _ _ _ _ _ _ _ [bracket] _ _ kind
    (List.forall_mem_singleton.mpr opening) word assign range (.skip (block outputs)) last

/-- The cases of a `switch` share its subject, whose tokens stand in front of them. -/
theorem switch (known : s.peekKind = some .switchKeyword)
    (value : Grammar.Reads (.expression .outside 0 subject) s.next s₁)
    (ended : s₂.peekKind = some .endKeyword) (chain : LocatedBetween s₁ s₂ (.cases cases)) :
    LocatedBetween s (cases.logged s₂.next) (.openStatement (.switch subject cases)) := by
  obtain ⟨keyword, here, kind⟩ := State.peek_of_peekKind known
  obtain ⟨front, one, value⟩ := value.located
  obtain ⟨run, two, chain⟩ := chain
  obtain ⟨ends, found, last⟩ := State.peek_of_peekKind ended
  have whole := State.Advances.cons here (one.trans (two.concat found))
  exact ⟨_, cases.logged_advances whole,
    fun outputs => switch_located kind value.located (chain outputs _) last⟩

/-- A `try` that catches nothing stands at its keyword. -/
theorem tryOnly (known : s.peek = some token) (kind : token.kind = .tryKeyword)
    (ended : s₁.peekKind = some .endKeyword)
    (block : LocatedBetween s.next s₁ (.block Parser.endsTry body)) :
    LocatedBetween s s₁.next (.openStatement (.tryCatch body [] token.pos)) := by
  obtain ⟨run, advances, block⟩ := block
  obtain ⟨ends, found, last⟩ := State.peek_of_peekKind ended
  refine ⟨_, .cons known (advances.concat found), fun outputs => ?_⟩
  exact .single (.tryCatch kind (block outputs) .nil last)

/-- A `try` with a handler stands at its keyword. -/
theorem tryCatch (known : s.peek = some token) (kind : token.kind = .tryKeyword)
    (catches : s₁.peekKind = some .catchKeyword) (ended : s₂.peekKind = some .endKeyword)
    (block : LocatedBetween s.next s₁ (.block Parser.endsTry body))
    (handled : LocatedBetween s₁.next s₂ (.block (· == .endKeyword) handler)) :
    LocatedBetween s s₂.next (.openStatement (.tryCatch body handler token.pos)) := by
  obtain ⟨front, one, guarded⟩ := block
  obtain ⟨keyword, caught, -⟩ := State.peek_of_peekKind catches
  obtain ⟨back, two, handled⟩ := handled
  obtain ⟨ends, found, last⟩ := State.peek_of_peekKind ended
  refine ⟨_, .cons known (one.trans ((two.concat found).cons caught)), fun outputs => ?_⟩
  exact .single (.tryCatch kind (guarded outputs) (.skip (handled outputs)) last)

/-- An `else` has no position of its own. -/
theorem otherwiseTail (known : s.peekKind = some .elseKeyword)
    (block : LocatedBetween s.next s₁ (.block (· == .endKeyword) body)) :
    LocatedBetween s s₁ (.tail (.otherwise body)) := by
  obtain ⟨keyword, found, -⟩ := State.peek_of_peekKind known
  obtain ⟨run, advances, block⟩ := block
  exact ⟨_, advances.cons found, fun outputs => .block (.skip (block outputs))⟩

/-- An `elseif` stands at its keyword. -/
theorem branchTail (known : s.peek = some token) (kind : token.kind = .elseIfKeyword)
    (test : Grammar.Reads (.expression .outside 0 condition) s.next s₁)
    (block : LocatedBetween s₁ s₂ (.block Parser.endsBranch body))
    (more : LocatedBetween s₂ s₃ (.tail tail)) :
    LocatedBetween s s₃ (.tail (.branch condition body tail token.pos)) := by
  obtain ⟨front, one, test⟩ := test.located
  obtain ⟨run, two, block⟩ := block
  obtain ⟨back, three, alternative⟩ := more
  refine ⟨_, .cons known (one.trans (two.trans three)), fun outputs => ?_⟩
  exact .branch (.mk kind test.located (block outputs) (alternative outputs))

/-- An `otherwise` has no position of its own. -/
theorem otherwiseCases (known : s.skipSeparators.peekKind = some .otherwiseKeyword)
    (block : LocatedBetween s.skipSeparators.next s₁ (.block (· == .endKeyword) body)) :
    LocatedBetween s s₁ (.cases (.otherwise body)) := by
  obtain ⟨keyword, found, -⟩ := State.peek_of_peekKind known
  obtain ⟨run, advances, block⟩ := block
  exact ⟨_, (State.Advances.skip s _).trans (advances.cons found),
    fun outputs subject => .block (.behind (.skip (block outputs)) _)⟩

/-- A `case` stands at its keyword, and so does the comparison that it comes to. -/
theorem caseCases (known : s.skipSeparators.peek = some token) (kind : token.kind = .caseKeyword)
    (test : Grammar.Reads (.expression .outside 0 value) s.skipSeparators.next s₁)
    (block : LocatedBetween s₁ s₂ (.block Parser.endsCase body))
    (more : LocatedBetween s₂ s₃ (.cases cases)) :
    LocatedBetween s s₃ (.cases (.case value body cases token.pos)) := by
  obtain ⟨front, one, test⟩ := test.located
  obtain ⟨run, two, block⟩ := block
  obtain ⟨back, three, others⟩ := more
  have inside := State.Advances.cons known (one.trans (two.trans three))
  refine ⟨_, (State.Advances.skip s _).trans inside, fun outputs subject => ?_⟩
  have whole : Conditional.Located outputs (.case subject) _ _ :=
    .mk kind test.located (block outputs) (others outputs subject)
  exact .behind (.branch whole) _

/-- The top of a program stands where its first statement and the rest of it do. -/
theorem item (head : LocatedBetween s.skipSeparators s₁ (.statement first))
    (tail : LocatedBetween s₁ s₂ (.items items)) :
    LocatedBetween s s₂ (.items (.statement first :: items)) := by
  obtain ⟨front, one, statement⟩ := head
  obtain ⟨back, two, items⟩ := tail
  exact ⟨_, (State.Advances.skip s _).trans (one.trans two),
    .behind (.block (statement []) items) _⟩

/-- A function stands at its keyword, and so does the return that is put behind its body. What it
notes when it is closed takes no token. -/
theorem function {head : Header} {event : Event} (known : s.skipSeparators.peek = some token)
    (kind : token.kind = .functionKeyword) (header : Head token.pos head s.skipSeparators.next s₁)
    (block : LocatedBetween (s₁.enter head) s₂ (.block Parser.endsFunction body))
    (tail : LocatedBetween (s₂.leave.log event) s₃ (.items items)) :
    LocatedBetween s s₃
      (.items (.function { head with usesNargin := s₂.usesNargin } body :: items)) := by
  obtain ⟨front, one, names⟩ := header.located
  obtain ⟨inside, two, written⟩ := block
  obtain ⟨gap, three⟩ := ((State.Reaches.refl s₂).leave).log event
  obtain ⟨back, four, items⟩ := tail
  have entered : s₁.Advances inside s₂ := ⟨two.rest, two.consumed⟩
  have whole := State.Advances.cons known (one.trans (entered.trans (three.trans four)))
  refine ⟨_, (State.Advances.skip s _).trans whole, .behind ?_ _⟩
  refine .function kind header.pos ⟨names.name, names.outputs, names.params⟩
    (written head.outputs) ?_ (items.behind gap)
  rw [← header.pos]
  exact closed_cases head _

end Part.LocatedBetween

/-- What a part of a program reads stands where it should. -/
theorem Reads.located {part : Part} (reads : Reads dialect part s final) :
    part.LocatedBetween s final := by
  induction reads with
  | @blockEnd ends s _ => exact ⟨_, .skip s _, fun outputs => BlockLocated.of_gap _⟩
  | block _ _ _ _ _ head tail => exact .block head tail
  | statement _ _ head => exact head
  | eval _ _ expression =>
    obtain ⟨run, advances, ended⟩ := expression.located
    exact ⟨run, advances, fun outputs => .single (.eval ended.located)⟩
  | assign _ _ target sign kind source assigns => exact .assign target sign kind source assigns
  | command _ _ _ run =>
    obtain ⟨words, advances, located⟩ := command_located run
    exact ⟨words, advances, fun outputs => .single (located outputs)⟩
  | branch known kind test separated _ _ ended body tail =>
    exact .branch known kind test separated ended body tail
  | whileLoop known kind test _ _ ended body => exact .whileLoop known kind test ended body
  | forLoop known kind _ head _ _ ended body => exact .forLoop known kind head ended body
  | forEnclosed known kind enclosed head closes _ _ ended body =>
    exact .forEnclosed known kind enclosed head closes ended body
  | switch known value _ _ ended chain => exact .switch known value ended chain
  | tryOnly known kind _ ended body => exact .tryOnly known kind ended body
  | tryCatch known kind _ catches _ ended body handler =>
    exact .tryCatch known kind catches ended body handler
  | global known kind names =>
    obtain ⟨run, advances, kinds, same⟩ := names.located
    refine ⟨_, advances.cons known, fun outputs => ?_⟩
    rw [same]
    exact .single (.global kind kinds)
  | breakLoop known kind => exact ⟨_, .next known, fun outputs => .single (.breakLoop kind)⟩
  | continueLoop known kind => exact ⟨_, .next known, fun outputs => .single (.continueLoop kind)⟩
  | leave known kind => exact ⟨_, .next known, fun outputs => .single (.leave kind)⟩
  | @noTail s => exact ⟨[], .refl s, fun outputs => .block .nil⟩
  | otherwiseTail known _ body => exact .otherwiseTail known body
  | branchTail known kind test _ _ _ body tail => exact .branchTail known kind test body tail
  | @noCases s _ _ => exact ⟨_, .skip s _, fun outputs subject => .block (BlockLocated.of_gap _)⟩
  | otherwiseCases known _ body => exact .otherwiseCases known body
  | caseCases known kind test _ _ _ body tail => exact .caseCases known kind test body tail
  | @noItems s _ => exact ⟨_, .skip s _, TopLocated.of_gap _⟩
  | item _ _ _ _ head tail => exact .item head tail
  | function known kind header _ _ _ block tail => exact .function known kind header block tail

end Surface

/-- A target has no positions but those of the expression that it is read from. -/
theorem Target.positions_subset {expr : Expr} {target : Target}
    (read : Target.ofExpr? expr = some target) : target.positions ⊆ expr.positions := by
  cases expr with
  | ident name => 
    obtain rfl := Option.some.inj read
    simp [Target.positions, Expr.positions]
  | member object field pos | cellIndex object args pos | flatten object args pos =>
    obtain rfl := Option.some.inj read
    simp [Target.positions, Expr.positions]
  | call call =>
    obtain ⟨callee, args, outputs, pos⟩ := call
    cases outputs with
    | some => cases read
    | none =>
      obtain rfl := Option.some.inj read
      simp [Target.positions, Expr.positions, Call.positions]
  | number | string | colon | range | lastIndex | unary | binary | matrix | cell | transpose |
    lambda | handle | parens => cases read

/-- The targets of a row have no positions but those of its elements. -/
theorem targetPositions_subset {row : List Expr} {targets : List Target}
    (read : row.map Target.ofExpr? = targets.map some) :
    targetPositions targets ⊆ exprPositions row := by
  intro pos inside
  obtain ⟨target, among, here⟩ := mem_targetPositions.mp inside
  have found : some target ∈ row.map Target.ofExpr? := read ▸ List.mem_map_of_mem among
  obtain ⟨expr, written, same⟩ := List.mem_map.mp found
  exact mem_exprPositions.mpr ⟨expr, written, Target.positions_subset same here⟩

/-- A call with targets has no positions but those of the targets and of its value. -/
theorem Call.positions_subset {targets : List Target} {value : Expr} {call : Call}
    (called : Assignment.callWith targets value = .ok call) :
    call.positions ⊆ targetPositions targets ++ value.positions := by
  unfold Assignment.callWith at called
  split at called
  · obtain rfl := Except.ok.inj called
    simp [Call.positions, Expr.positions, exprPositions]
  · obtain rfl := Except.ok.inj called
    grind [Call.positions, Expr.positions]
  · cases called

mutual

/-- Every position in a statement is that of a token that it is read from, or that of an output of
its function. -/
theorem Stmt.Located.positions_subset {outputs : List Ident} : ∀ {run : List Token} {stmt : Stmt},
    stmt.Located outputs run → stmt.positions ⊆ outputs.map Ident.pos ++ run.map Token.pos
  | _, _, .assign left read _ value => by
    have before := left.positions_subset
    have target := Target.positions_subset read
    have behind := value.positions_subset
    grind [Stmt.positions]
  | _, _, .assignAll row read _ value called => by
    have before := row.positions_subset
    have targets := targetPositions_subset read
    have behind := value.positions_subset
    have call := Call.positions_subset called
    grind [Stmt.positions, Expr.positions, rowPositions]
  | _, _, .eval expr => by
    have inside := expr.positions_subset
    have here := inside (Expr.pos_mem_positions _)
    grind [Stmt.positions]
  | _, _, @Stmt.Located.command _ name words _ => by
    have strings : exprPositions (words.map fun word =>
          .string (Command.wordText (word.1 :: word.2)) word.1.pos) ⊆
        (words.flatMap fun word => word.1 :: word.2).map Token.pos := by
      intro pos inside
      obtain ⟨expr, written, here⟩ := mem_exprPositions.mp inside
      obtain ⟨word, among, rfl⟩ := List.mem_map.mp written
      obtain rfl := List.mem_singleton.mp here
      exact List.mem_map_of_mem (List.mem_flatMap.mpr ⟨word, among, .head _⟩)
    grind [Stmt.positions, Call.positions, Expr.positions]
  | _, _, @Stmt.Located.load _ name first more targets _ _ => by
    have named : targetPositions (targets.map fun target =>
        .var ⟨target.text, target.pos⟩) ⊆ targets.map Token.pos := by
      intro pos inside
      obtain ⟨target, written, here⟩ := mem_targetPositions.mp inside
      obtain ⟨token, among, rfl⟩ := List.mem_map.mp written
      obtain rfl := List.mem_singleton.mp here
      exact List.mem_map_of_mem among
    grind [Stmt.positions, Call.positions, Expr.positions, exprPositions]
  | _, _, .branch conditional _ => by
    have inside := conditional.positions_subset
    grind [Stmt.positions, Link.positions]
  | _, _, .switch _ subject chain _ => by
    have before := subject.positions_subset
    have inside := chain.positions_subset
    grind [Stmt.positions, Else.positions, Link.positions]
  | _, _, .whileLoop _ condition body _ => by
    have before := condition.positions_subset
    have inside := body.positions_subset
    grind [Stmt.positions]
  | _, _, .forLoop _ _ _ _ range body _ => by
    have before := range.positions_subset
    have inside := body.positions_subset
    grind [Stmt.positions]
  | _, _, .tryCatch _ body handler _ => by
    have before := body.positions_subset
    have behind := handler.positions_subset
    grind [Stmt.positions]
  | _, _, .leave _ | _, _, .breakLoop _ | _, _, .continueLoop _ => by simp [Stmt.positions]
  | _, _, .global _ _ => by simp [Stmt.positions, Function.comp_def]

/-- Every position in some statements is that of a token that they are read from, or that of an
output of their function. -/
theorem BlockLocated.positions_subset {outputs : List Ident} : ∀ {run : List Token}
    {body : List Stmt}, BlockLocated outputs run body →
      blockPositions body ⊆ outputs.map Ident.pos ++ run.map Token.pos
  | _, _, .nil => by simp [blockPositions]
  | _, _, .skip later => by
    have behind := later.positions_subset
    grind
  | _, _, .cons first later => by
    have head := first.positions_subset
    have behind := later.positions_subset
    grind [blockPositions]

/-- Every position in a condition and its alternatives is that of a token that they are read from,
or stands in what its chain or its function gives to it. -/
theorem Conditional.Located.positions_subset {outputs : List Ident} : ∀ {link : Link}
    {run : List Token} {conditional : Conditional}, conditional.Located outputs link run →
      conditional.positions ⊆ outputs.map Ident.pos ++ (link.positions ++ run.map Token.pos)
  | .keyword _, _, _, .mk _ value body otherwise => by
    have before := value.positions_subset
    have inside := body.positions_subset
    have behind := otherwise.positions_subset
    grind [Conditional.positions, Link.positions, Link.condition, Link.next]
  | .case _, _, _, .mk _ value body otherwise => by
    have before := value.positions_subset
    have inside := body.positions_subset
    have behind := otherwise.positions_subset
    grind [Conditional.positions, Link.positions, Link.condition, Link.next, Expr.positions]

/-- Every position in an alternative is that of a token that it is read from, or stands in what its
chain or its function gives to it. -/
theorem Else.Located.positions_subset {outputs : List Ident} : ∀ {link : Link} {run : List Token}
    {otherwise : Else}, otherwise.Located outputs link run →
      otherwise.positions ⊆ outputs.map Ident.pos ++ (link.positions ++ run.map Token.pos)
  | _, _, _, .block body => by
    have inside := body.positions_subset
    grind [Else.positions]
  | _, _, _, .skip later => by
    have behind := later.positions_subset
    grind
  | _, _, _, .branch conditional => by
    have inside := conditional.positions_subset
    grind [Else.positions]

end

/-- Every position in the head of a function, but that of the head itself, is that of a token. -/
theorem Header.Located.positions_subset {head : Header} {run : List Token}
    (located : head.Located run) : head.positions ⊆ head.pos :: run.map Token.pos := by
  obtain ⟨⟨token, found, -, name⟩, outputs, params⟩ := located
  have declared := Param.positions_subset params
  have carried : head.outputs.map Ident.pos ⊆ run.map Token.pos := by
    intro pos inside
    obtain ⟨output, among, rfl⟩ := List.mem_map.mp inside
    obtain ⟨token, found, -, rfl⟩ := outputs output among
    exact List.mem_map_of_mem found
  grind [Header.positions]

/-- Every position in the statements and functions of a program is that of a token. -/
theorem TopLocated.positions_subset {run : List Token} {body : List Stmt}
    (located : TopLocated run body) : blockPositions body ⊆ run.map Token.pos := by
  induction located with
  | nil => simp [blockPositions]
  | skip _ ih => grind
  | block statements _ ih =>
    have head := statements.positions_subset
    grind [blockPositions_append]
  | function _ same names written ends _ ih =>
    have head := names.positions_subset
    have inside := written.positions_subset
    obtain rfl | rfl := ends
    · grind [blockPositions, Stmt.positions, Function.positions, Header.positions]
    · grind [blockPositions, blockPositions_append, Stmt.positions, Function.positions,
        Header.positions]

/-- The statements and functions of an accepted program stand where its tokens do. -/
theorem TopLocated.of_accepted {dialect : Dialect} {tokens : List Token} {program : Program}
    (accepted : Program.ofTokens dialect tokens = some (.ok program)) :
    TopLocated tokens program.body := by
  obtain ⟨items, final, reads, ended, tree⟩ := Surface.program_sound accepted
  obtain ⟨run, advances, located⟩ := reads.located
  have whole : tokens = run := by
    have rest : tokens = run ++ final.rest := advances.rest
    rwa [ended, List.append_nil] at rest
  rw [tree, whole]
  exact located

/-- In an accepted program every node carries the position of the token that names it, and no
position stands in its tree but those of its tokens. -/
theorem Program.located_of_accepted {dialect : Dialect} {tokens : List Token} {program : Program}
    (accepted : Program.ofTokens dialect tokens = some (.ok program)) :
    TopLocated tokens program.body ∧
      ∀ pos ∈ program.positions, ∃ token ∈ tokens, token.pos = pos := by
  have located := TopLocated.of_accepted accepted
  refine ⟨located, fun pos inside => ?_⟩
  exact List.mem_map.mp (located.positions_subset inside)

/-- The comparison that the only case of a switch is lowered to stands at the keyword of the
case. -/
theorem Program.located_of_lowered_case :
    TopLocated
        [⟨.switchKeyword, "switch", ⟨1, 0⟩⟩, ⟨.ident, "x", ⟨1, 7⟩⟩, ⟨.newline, "\n", ⟨1, 8⟩⟩,
          ⟨.caseKeyword, "case", ⟨2, 9⟩⟩, ⟨.number, "2", ⟨2, 14⟩⟩, ⟨.newline, "\n", ⟨2, 15⟩⟩,
          ⟨.endKeyword, "end", ⟨3, 16⟩⟩]
        [.branch (.mk (.binary (.number "2" ⟨2, 14⟩) .equal (.ident ⟨"x", ⟨1, 7⟩⟩) ⟨2, 9⟩) []
          (.block []) ⟨2, 9⟩)] ∧
      ∀ pos ∈ [(⟨2, 9⟩ : Position), ⟨2, 9⟩, ⟨2, 14⟩, ⟨1, 7⟩],
        pos ∈ [(⟨1, 0⟩ : Position), ⟨1, 7⟩, ⟨1, 8⟩, ⟨2, 9⟩, ⟨2, 14⟩, ⟨2, 15⟩, ⟨3, 16⟩] := by
  have accepted : Program.ofTokens .strict
      [⟨.switchKeyword, "switch", ⟨1, 0⟩⟩, ⟨.ident, "x", ⟨1, 7⟩⟩, ⟨.newline, "\n", ⟨1, 8⟩⟩,
        ⟨.caseKeyword, "case", ⟨2, 9⟩⟩, ⟨.number, "2", ⟨2, 14⟩⟩, ⟨.newline, "\n", ⟨2, 15⟩⟩,
        ⟨.endKeyword, "end", ⟨3, 16⟩⟩] =
      some (.ok ⟨[.branch (.mk (.binary (.number "2" ⟨2, 14⟩) .equal (.ident ⟨"x", ⟨1, 7⟩⟩)
        ⟨2, 9⟩) [] (.block []) ⟨2, 9⟩)]⟩) := by cbv
  obtain ⟨located, positions⟩ := Program.located_of_accepted accepted
  exact ⟨located, fun pos inside => List.mem_map.mpr (positions pos inside)⟩

end MatlabFront
