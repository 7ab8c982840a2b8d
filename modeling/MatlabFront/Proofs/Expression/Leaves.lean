import MatlabFront.Proofs.Expression.Grammar
import MatlabFront.Proofs.Expression.Grouping
import MatlabFront.Proofs.Parser.Leaves

/-!
# Expressions keep their names, numbers and strings

Every name, number and string that is read in an expression is borne by a node of its tree. A node
that is built late has all parts of the nodes that it is built from, so nothing that an operand
bears is lost when an operator takes it.
-/

namespace MatlabFront

/-- The name that a parameter declares. -/
def Param.ident (param : Param) : Ident := ⟨param.name, param.pos⟩

/-- The leaves of a node itself, without those of its parts. -/
def Expr.leaves : Expr → List Leaf
  | .ident name => [.name name]
  | .number text pos => [.number text pos]
  | .string value pos => [.string value pos]
  | .handle function _ => [.name function]
  | .lambda params _ _ => params.map (.name ·.ident)
  | .member _ (.named name) _ => [.name name]
  | _ => []

/-- A node of an expression has a leaf. -/
inductive Expr.Bears (leaf : Leaf) : Expr → Prop where
  | here {expr : Expr} : leaf ∈ expr.leaves → expr.Bears leaf
  | part {expr part : Expr} : part ∈ expr.parts → part.Bears leaf → expr.Bears leaf

/-- One of some expressions bears a leaf. -/
def BorneBy (exprs : List Expr) (leaf : Leaf) : Prop := ∃ expr ∈ exprs, expr.Bears leaf

variable {leaf : Leaf}

/-- No leaf is borne by no expressions. -/
theorem not_borneBy_nil : ¬BorneBy [] leaf := by simp [BorneBy]

/-- A leaf is borne by the first expression or by one of the others. -/
theorem borneBy_cons {expr : Expr} {exprs : List Expr} :
    BorneBy (expr :: exprs) leaf ↔ expr.Bears leaf ∨ BorneBy exprs leaf := by
  simp [BorneBy]

/-- A leaf is borne by two lists together when it is borne by one of them. -/
theorem borneBy_append {exprs more : List Expr} :
    BorneBy (exprs ++ more) leaf ↔ BorneBy exprs leaf ∨ BorneBy more leaf := by
  simp [BorneBy, or_and_right, exists_or]

/-- The two rules before in one, for a node with a first part and two lists of others. -/
theorem borneBy_cons_append {expr : Expr} {exprs more : List Expr} :
    BorneBy (expr :: exprs ++ more) leaf ↔
      expr.Bears leaf ∨ BorneBy exprs leaf ∨ BorneBy more leaf := by
  rw [List.cons_append, borneBy_cons, borneBy_append]

namespace Expr

/-- An expression bears its own leaves and those of its parts. -/
theorem bears_iff {expr : Expr} :
    expr.Bears leaf ↔ leaf ∈ expr.leaves ∨ BorneBy expr.parts leaf := by
  constructor
  · rintro (here | ⟨inside, bears⟩)
    · exact .inl here
    · exact .inr ⟨_, inside, bears⟩
  · rintro (here | ⟨part, inside, bears⟩)
    · exact .here here
    · exact .part inside bears

/-- A node without leaves of its own bears what its parts bear. -/
theorem bears_iff_parts {expr : Expr} (bare : expr.leaves = []) :
    expr.Bears leaf ↔ BorneBy expr.parts leaf := by
  rw [bears_iff, bare]
  simp

/-- A name bears itself. -/
theorem bears_ident {name : Ident} : (ident name).Bears leaf ↔ leaf = .name name := by
  rw [bears_iff]
  simp [leaves, parts, BorneBy]

/-- The node of an infix operator bears what its operands bear. -/
theorem bears_infixNode {operator : InfixOperator} {left right : Expr} {pos : Position} :
    (infixNode operator left right pos).Bears leaf ↔ left.Bears leaf ∨ right.Bears leaf := by
  unfold infixNode
  split
  · rw [bears_iff_parts rfl]
    simp [parts, BorneBy]
  · unfold rangeTo
    split
    · rw [bears_iff_parts rfl, bears_iff_parts rfl]
      simp [parts, BorneBy, or_assoc]
    · rw [bears_iff_parts rfl]
      simp [parts, BorneBy]

/-- A call or subscript bears what its callee and its arguments bear. -/
theorem bears_apply {callee : Expr} {args : List Expr} :
    (callee.apply args).Bears leaf ↔ callee.Bears leaf ∨ BorneBy args leaf := by
  unfold apply
  split
  · rw [bears_iff_parts rfl]
    simp [parts, BorneBy]
  · rw [bears_iff_parts rfl]
    simp [parts, BorneBy]

end Expr

/-- The next token is kept by the parameter that it declares. -/
theorem State.Keeps.param {dialect : Dialect} {s : State} {param : Param}
    (declares : s.param? = some param) : s.Keeps dialect (· = .name param.ident) s.next := by
  obtain ⟨token, known, ⟨tilde, -⟩ | ⟨word, rfl⟩⟩ := State.token_of_param declares
  · exact .past (tilde ▸ State.peekKind_of_peek known) rfl
  · exact .leaf known (Token.leaf?_of_ident word) rfl

/-- An infix operator is no leaf. -/
theorem Kind.isLeaf_of_infix {kind : Kind} {operator : InfixOperator}
    (entry : kind.infixOperator? = some operator) : kind.isLeaf = false := by
  cases kind <;> first | rfl | cases entry

/-- A unary operator is no leaf. -/
theorem Kind.isLeaf_of_unary {kind : Kind} {operator : UnaryOperator}
    (entry : kind.unaryOperator? = some operator) : kind.isLeaf = false := by
  cases kind <;> first | rfl | cases entry

/-- A transpose mark is no leaf. -/
theorem Kind.isLeaf_of_isMark {kind : Kind} (mark : kind.isMark = true) : kind.isLeaf = false := by
  cases kind <;> first | rfl | cases mark

/-- A separator is no leaf. -/
theorem Kind.isLeaf_of_isSeparator {kind : Kind} (separates : kind.isSeparator = true) :
    kind.isLeaf = false := by
  cases kind <;> first | rfl | cases separates

namespace Grammar

/-- A phrase keeps the leaves that are read, as long as its closing bracket is none, and what the
operand in front of it bears. -/
def Phrase.Kept (dialect : Dialect) (s final : State) : Phrase → Prop
  | .expression _ _ whole | .operand _ whole | .handle _ _ whole =>
    s.Keeps dialect whole.Bears final
  | .operators _ _ left whole | .suffix left _ whole =>
    s.Keeps dialect whole.Bears final ∧ ∀ leaf, left.Bears leaf → whole.Bears leaf
  | .elements close _ row rows => close.isLeaf = false →
    s.Keeps dialect (BorneBy (row ++ rows.flatten)) final
  | .arguments close args | .argumentsFrom close args => close.isLeaf = false →
    s.Keeps dialect (BorneBy args) final
  | .parameters params | .parametersFrom params =>
    s.Keeps dialect (fun leaf => ∃ param ∈ params, leaf = .name param.ident) final

/-- Every name, number and string that is read in a phrase is borne by its tree. -/
theorem Reads.kept (dialect : Dialect) {phrase : Phrase} {s final : State}
    (reads : Reads phrase s final) : phrase.Kept dialect s final := by
  induction reads with
  | expression _ _ head tail =>
    obtain ⟨later, given⟩ := tail
    exact (State.Keeps.imp head given).trans later
  | stop => exact ⟨.refl _, fun _ => id⟩
  | postfixed _ _ _ _ _ _ head tail =>
    obtain ⟨first, middle⟩ := head
    obtain ⟨later, given⟩ := tail
    exact ⟨(first.imp given).trans later, fun leaf bears => given leaf (middle leaf bears)⟩
  | infixed known _ entry _ _ _ head tail =>
    obtain ⟨later, given⟩ := tail
    refine ⟨.behind ?_ (State.peekKind_of_peek known) (Kind.isLeaf_of_infix entry),
      fun leaf bears => given leaf (Expr.bears_infixNode.mpr (.inl bears))⟩
    exact (State.Keeps.imp head fun leaf bears =>
      given leaf (Expr.bears_infixNode.mpr (.inr bears))).trans later
  | ident known kind =>
    exact (State.Keeps.leaf known (Token.leaf?_of_ident kind) (.here (.head _))).congr
      (State.note_rest _ _)
  | number known kind => exact .leaf known (Token.leaf?_of_number kind) (.here (.head _))
  | string known kind => exact .leaf known (Token.leaf?_of_string kind) (.here (.head _))
  | lastIndex known kind | colon known kind | ignored known kind =>
    exact .past (kind ▸ State.peekKind_of_peek known) rfl
  | unary known entry _ _ head =>
    exact .behind (.imp head fun leaf bears => .part (.head _) bears)
      (State.peekKind_of_peek known) (Kind.isLeaf_of_unary entry)
  | atSign known kind _ head => exact .behind head (kind ▸ State.peekKind_of_peek known) rfl
  | parens known kind _ closes head =>
    exact .between (.imp head fun leaf bears => .part (.head _) bears)
      (kind ▸ State.peekKind_of_peek known) closes rfl rfl
  | matrix known kind _ head | cell known kind _ head =>
    refine .behind (.imp (head rfl) fun leaf => ?_) (kind ▸ State.peekKind_of_peek known) rfl
    rw [Expr.bears_iff_parts rfl, Expr.parts, flatten_rowsOf]
    exact id
  | lambda _ _ _ head tail =>
    refine State.Keeps.trans (.imp head fun leaf declared => ?_)
      (.imp tail fun leaf bears => .part (.head _) bears)
    obtain ⟨param, inside, same⟩ := declared
    exact .here (same ▸ List.mem_map_of_mem inside)
  | named known kind => exact .leaf known (Token.leaf?_of_ident kind) (.here (.head _))
  | close known => exact .past known
  | rowEnd known _ breaks _ head =>
    intro plain
    refine .behind (.imp (head plain) fun leaf => ?_) known (by obtain rfl | rfl := breaks <;> rfl)
    rw [List.nil_append, flatten_rowsOf]
    exact id
  | comma known _ _ head => exact fun plain => .behind (head plain) known rfl
  | element _ _ _ _ _ head tail =>
    exact fun plain => (State.Keeps.or head (tail plain)).imp fun leaf => borneBy_cons.mpr
  | call known kind _ head =>
    refine ⟨.behind (.imp (head rfl) fun leaf bears => ?_)
      (kind ▸ State.peekKind_of_peek known) rfl, fun leaf bears => ?_⟩
    · exact Expr.bears_apply.mpr (.inr bears)
    · exact Expr.bears_apply.mpr (.inl bears)
  | cellIndex known kind _ head =>
    refine ⟨.behind (.imp (head rfl) fun leaf borne => ?_)
      (kind ▸ State.peekKind_of_peek known) rfl, fun leaf bears => .part (.head _) bears⟩
    obtain ⟨arg, inside, bears⟩ := borne
    exact .part (.tail _ inside) bears
  | member known kind named name =>
    refine ⟨.behind ?_ (kind ▸ State.peekKind_of_peek known) rfl,
      fun leaf bears => .part (.head _) bears⟩
    exact .leaf named (Token.leaf?_of_ident name) (.here (.head _))
  | dynamic known kind opens _ closes head =>
    refine ⟨.behind (.between ?_ opens closes rfl rfl)
      (kind ▸ State.peekKind_of_peek known) rfl, fun leaf bears => .part (.head _) bears⟩
    exact .imp head fun leaf bears => .part (.tail _ (.head _)) bears
  | transpose =>
    exact ⟨.skip _ fun _ => Kind.isLeaf_of_isMark, fun leaf bears => .part (.head _) bears⟩
  | noArguments closes => exact .past closes
  | arguments _ _ head => exact head
  | argument _ more _ head tail =>
    exact fun plain => ((State.Keeps.before head more rfl).or (tail plain)).imp
      fun leaf => borneBy_cons.mpr
  | lastArgument _ closes _ head =>
    exact .before (.imp head fun leaf bears => ⟨_, .head _, bears⟩) closes
  | noParameters opens closes => exact .behind (.past closes rfl) opens rfl
  | parameters opens _ _ head => exact .behind head opens rfl
  | parameter declares more _ head =>
    refine State.Keeps.trans (.before ((State.Keeps.param declares).imp fun leaf same =>
      ⟨_, .head _, same⟩) more rfl) (.imp head fun leaf declared => ?_)
    obtain ⟨param, inside, same⟩ := declared
    exact ⟨param, .tail _ inside, same⟩
  | lastParameter declares closes =>
    exact .before ((State.Keeps.param declares).imp fun leaf same => ⟨_, .head _, same⟩) closes rfl

end Grammar

end MatlabFront
