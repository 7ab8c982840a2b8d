import MatlabFront.Proofs.Expression.Readable

/-!
# Written trees are read

Every tree that is shaped and grouped is readable. There is one lemma for each kind of node, which
says that the node is readable when its parts are, and the theorem puts them together along the
tree.
-/

namespace MatlabFront

open Grammar Spelling

variable {nesting : Nesting} {pos : Position}

/-- A name is readable. -/
theorem Expr.Readable.ident {name : Ident} (plain : name.name ≠ "~") :
    (Expr.ident name).Readable nesting := by
  refine .of_operand fun s run rest fills known _ _ => ?_
  cases fills with
  | @token _ _ token _ written done =>
    cases done
    obtain ⟨here, -⟩ := State.peek_of_rest known
    obtain ⟨kind, text⟩ | ⟨-, tilde⟩ := written
    · refine ⟨.ident (Parser.declared token), _, ?_, (State.Advances.next here).note _, by simp,
        .ident here kind⟩
      simp [Parser.declared, text]
    · exact absurd tilde plain

/-- A number is readable. -/
theorem Expr.Readable.number {text : String} : (Expr.number text pos).Readable nesting := by
  refine .of_operand fun s run rest fills known _ _ => ?_
  cases fills with
  | @token _ _ token _ written done =>
    cases done
    obtain ⟨here, -⟩ := State.peek_of_rest known
    obtain ⟨kind, rfl⟩ := written
    exact ⟨.number token.text token.pos, s.next, rfl, .next here, by simp, .number here kind⟩

/-- A string is readable. -/
theorem Expr.Readable.string {value : String} : (Expr.string value pos).Readable nesting := by
  refine .of_operand fun s run rest fills known _ _ => ?_
  cases fills with
  | @token _ _ token _ written done =>
    cases done
    obtain ⟨here, -⟩ := State.peek_of_rest known
    obtain ⟨kind, rfl⟩ := written
    exact ⟨.string (Literal.unquote token.text) token.pos, s.next, rfl, .next here, by simp,
      .string here kind⟩

/-- The word `end` is readable inside of brackets. -/
theorem Expr.Readable.lastIndex (bracketed : nesting ≠ .outside) :
    (Expr.lastIndex pos).Readable nesting := by
  refine .of_operand fun s run rest fills known _ _ => ?_
  cases fills with
  | @token _ _ token _ written done =>
    cases done
    obtain ⟨here, -⟩ := State.peek_of_rest known
    obtain ⟨kind, text⟩ := written
    exact ⟨.lastIndex token.pos, s.next, rfl, .next here, by simp,
      .lastIndex here kind text bracketed⟩

/-- The handle of a function is readable. -/
theorem Expr.Readable.handle {function : Ident} : (Expr.handle function pos).Readable nesting := by
  refine .of_operand fun s run rest fills known _ _ => ?_
  obtain ⟨sign, later, rfl, kind, behind⟩ := Layout.Fills.uncons_kind fills
  cases behind with
  | @token _ _ name _ written done =>
    cases done
    obtain ⟨here, next⟩ := State.peek_of_rest known
    obtain ⟨there, -⟩ := State.peek_of_rest next
    obtain ⟨word, text⟩ := written
    refine ⟨.handle (Parser.declared name) sign.pos, _, ?_, .cons here (.next there), by simp,
      .atSign here kind (.named there word)⟩
    simp [Parser.declared, text]

/-- An expression in parentheses is readable when what they hold is. -/
theorem Expr.Readable.parens {inner : Expr} (readable : inner.Readable .group) :
    (Expr.parens inner pos).Readable nesting := by
  refine .of_operand fun s run rest fills known tight _ => ?_
  obtain ⟨opening, later, rfl, opens, behind⟩ := Layout.Fills.uncons_kind fills
  obtain ⟨run, tail, rfl, content, last⟩ := behind.split
  obtain ⟨closing, nothing, rfl, closes, done⟩ := Layout.Fills.uncons_kind last
  cases done
  have known : s.rest = opening :: (run ++ closing :: rest) := by simpa using known
  obtain ⟨here, next⟩ := State.peek_of_rest known
  obtain ⟨read, s₁, same, advances, reads, closed⟩ :=
    readable.enclosed content closes next (tight.behind (.next here))
  exact ⟨.parens read opening.pos, s₁.next, by simp [same], advances.cons here,
    by simp, .parens here opens reads closed⟩

/-- A matrix is readable when its elements are and no row is empty. -/
theorem Expr.Readable.matrix {rows : List (List Expr)} (filled : ∀ row ∈ rows, row ≠ [])
    (readable : ∀ row ∈ rows, ∀ element ∈ row, element.Readable .elements) :
    (Expr.matrix rows pos).Readable nesting := by
  refine .of_operand fun s run rest fills known tight _ => ?_
  obtain ⟨opening, first, read, s₁, here, opens, same, advances, nonempty, reads⟩ :=
    literal_read filled readable fills rfl known tight
  exact ⟨.matrix (Parser.rowsOf first read) opening.pos, s₁, by simp [same],
    advances, nonempty, .matrix here opens reads⟩

/-- A cell literal is readable when its elements are and no row is empty. -/
theorem Expr.Readable.cell {rows : List (List Expr)} (filled : ∀ row ∈ rows, row ≠ [])
    (readable : ∀ row ∈ rows, ∀ element ∈ row, element.Readable .elements) :
    (Expr.cell rows pos).Readable nesting := by
  refine .of_operand fun s run rest fills known tight _ => ?_
  obtain ⟨opening, first, read, s₁, here, opens, same, advances, nonempty, reads⟩ :=
    literal_read filled readable fills rfl known tight
  exact ⟨.cell (Parser.rowsOf first read) opening.pos, s₁, by simp [same],
    advances, nonempty, .cell here opens reads⟩

/-- A prefix operator is readable with an operand that may stand behind it. -/
theorem Expr.Readable.unary {operator : UnaryOperator} {operand : Expr}
    (readable : operand.Readable nesting)
    (behind : operand.StandsBehind UnaryOperator.operandPower) :
    (Expr.unary operator operand pos).Readable nesting := by
  refine .of_operand fun s run rest fills known tight closed => ?_
  obtain ⟨sign, later, rfl, kind, content⟩ := Layout.Fills.uncons_kind fills
  obtain ⟨here, next⟩ := State.peek_of_rest known
  obtain ⟨open_operand, weaker⟩ := closed.operand rfl rfl
  obtain ⟨read, s₁, same, advances, reads⟩ :=
    readable.complete behind content next (tight.behind (.next here)) open_operand weaker
  exact ⟨.unary operator read sign.pos, s₁, by simp [same], advances.cons here,
    by simp, .unary here (Kind.unaryOperator?_eq_some_iff.mpr kind) (fun _ => reads.tildeAlone)
      reads⟩

/-- An anonymous function is readable with a body that may stand behind its parameters. -/
theorem Expr.Readable.lambda {params : List Param} {body : Expr} (readable : body.Readable nesting)
    (behind : body.StandsBehind lambdaBodyPower) :
    (Expr.lambda params body pos).Readable nesting := by
  refine .of_operand fun s run rest fills known tight closed => ?_
  have spelling : (Expr.lambda params body pos).spelling = .kind .atSign :: .kind .leftParen ::
      (listSpelling (.kind .comma) (params.map Param.spelling) ++
        .kind .rightParen :: body.spelling) := by simp [Expr.spelling]
  rw [spelling] at fills
  obtain ⟨sign, later, rfl, kind, behind_sign⟩ := Layout.Fills.uncons_kind fills
  obtain ⟨opening, later, rfl, opens, content⟩ := Layout.Fills.uncons_kind behind_sign
  obtain ⟨list, tail, rfl, written, last⟩ := content.split
  obtain ⟨closing, run, rfl, closes, last⟩ := Layout.Fills.uncons_kind last
  have known : s.rest = sign :: opening :: (list ++ closing :: (run ++ rest)) := by
    simpa using known
  obtain ⟨here, next⟩ := State.peek_of_rest known
  obtain ⟨there, -⟩ := State.peek_of_rest next
  obtain ⟨names, s₁, equal, moves, takes⟩ := parameters_read written opens closes next
  have left : s₁.rest = run ++ rest := moves.rest_eq (by simpa using next)
  obtain ⟨open_body, weaker⟩ := closed.operand rfl rfl
  obtain ⟨read, s₂, same, advances, reads⟩ :=
    readable.complete behind last left (tight.behind (moves.cons here)) open_body weaker
  exact ⟨.lambda names read sign.pos, s₂, by simp [same, equal],
    by simpa using (moves.cons here).trans advances, by simp,
    .atSign here kind (.lambda (opens ▸ State.peekKind_of_peek there) takes reads)⟩

/-- An infix operator is readable between operands that may stand on its sides. -/
theorem Expr.Readable.binary {left right : Expr} {operator : BinaryOperator}
    (first : left.Readable nesting) (second : right.Readable nesting)
    (before : left.StandsBefore operator.entry.leftPower)
    (behind : right.StandsBehind operator.entry.rightPower) :
    (Expr.binary left operator right pos).Readable nesting := by
  intro power s run rest spine fills known tight closed
  rw [Expr.StandsBehind, Expr.leftSpine, List.forall_mem_cons] at spine
  obtain ⟨open_right, weaker⟩ := closed.operand rfl rfl
  obtain ⟨front, back, place, s₁, same, equal, advances, filled, goes⟩ :=
    first.infixed second before behind operator.infixOperator?_kind spine.1 spine.2 fills known
      tight open_right weaker
  exact ⟨.binary front operator back place, s₁, by simp [same, equal], advances,
    filled, goes⟩

/-- A range without a step is readable when it does not start with one that could take it as its
step. -/
theorem Expr.Readable.shortRange {start stop : Expr} (first : start.Readable nesting)
    (second : stop.Readable nesting) (before : start.StandsBefore InfixOperator.colon.leftPower)
    (long : start.isShortRange = false)
    (behind : stop.StandsBehind InfixOperator.colon.rightPower) :
    (Expr.range start none stop pos).Readable nesting := by
  intro power s run rest spine fills known tight closed
  rw [Expr.StandsBehind, Expr.leftSpine, List.forall_mem_cons] at spine
  have entry : Kind.colon.infixOperator? = some .colon := rfl
  obtain ⟨open_stop, weaker⟩ := closed.operand rfl rfl
  obtain ⟨front, back, place, s₁, same, equal, advances, filled, goes⟩ :=
    first.infixed second before behind entry spine.1 spine.2 fills known tight open_stop weaker
  have node : Expr.infixNode .colon front back place = .range front none back place :=
    Expr.rangeTo_of_long ((Expr.isShortRange_congr same).trans long)
  refine ⟨.range front none back place, s₁, by simp [same, equal], advances, filled,
    fun result final later => goes result final ?_⟩
  rw [node]
  exact later

/-- The first colon of a longer range makes one of two operands, which the second one turns into one
of three. -/
theorem Expr.Readable.longRange {start step stop : Expr} (first : start.Readable nesting)
    (second : step.Readable nesting) (third : stop.Readable nesting)
    (before : start.StandsBefore InfixOperator.colon.leftPower)
    (long : start.isShortRange = false)
    (between : step.StandsBefore InfixOperator.colon.leftPower ∧
      step.StandsBehind InfixOperator.colon.rightPower)
    (behind : stop.StandsBehind InfixOperator.colon.rightPower) :
    (Expr.range start (some step) stop pos).Readable nesting := by
  intro power s run rest spine fills known tight closed
  rw [Expr.StandsBehind, Expr.leftSpine, List.forall_mem_cons] at spine
  have entry : Kind.colon.infixOperator? = some .colon := rfl
  obtain ⟨head, tail, rfl, pair, more⟩ := fills.split
  obtain ⟨sign, run, rfl, kind, last⟩ := Layout.Fills.uncons_kind more
  have again : sign.kind.infixOperator? = some .colon := kind ▸ entry
  have weaker : Weaker InfixOperator.colon.rightPower (sign :: (run ++ rest)) := by
    rintro _ ⟨⟩ left listed
    rw [Kind.leftPower?_of_infix again] at listed
    obtain rfl := Option.some.inj listed
    decide
  rw [List.append_assoc] at known
  obtain ⟨front, center, place, s₁, same, equal, advances, filled, goes⟩ :=
    first.infixed second before between.2 entry spine.1 spine.2 pair known tight
      (between.1.closed again) weaker
  obtain ⟨open_stop, weaker⟩ := closed.operand rfl rfl
  obtain ⟨back, s₂, alike, ends, continues⟩ :=
    infix_read third behind last (advances.rest_eq known) (tight.behind advances)
      (tight.atGap advances filled) again spine.1 open_stop weaker
  have node : Expr.infixNode .colon front center place = .range front none center place :=
    Expr.rangeTo_of_long ((Expr.isShortRange_congr same).trans long)
  refine ⟨.range front (some center) back place, s₂, by simp [same, equal, alike],
    advances.trans ends, by simp, fun result final later => goes result final ?_⟩
  rw [node]
  exact continues _ result final later

/-- A call is readable behind a callee that needs no parentheses. A lone colon would flatten it. -/
theorem Expr.Readable.call {callee : Expr} {args : List Expr} (readable : callee.Readable nesting)
    (before : callee.StandsBefore PostfixOperator.call.leftPower)
    (several : ∀ colon, args ≠ [.colon colon])
    (inside : ∀ arg ∈ args, arg.isColon = false → arg.Readable .group) :
    (Expr.call (.mk callee args none pos)).Readable nesting := by
  have spelling : (Expr.call (.mk callee args none pos)).spelling = callee.spelling ++
      (.kind .leftParen :: (listSpelling (.kind .comma) (spellings args) ++
        [.kind .rightParen])) := by simp [Expr.spelling]
  refine .of_suffix readable spelling rfl before (fun same => by cases same) (begins_of_kind rfl)
    fun s token run rest front fills known here tight _ same => ?_
  obtain ⟨read, s₁, equal, advances, kind, reads⟩ :=
    bracketed_read inside fills (.inl rfl) known here tight
  have node : front.apply read = .call (.mk front read none front.pos) := by
    unfold Expr.apply
    split
    · next colon =>
      obtain ⟨pos, lone⟩ := eq_colon_of_unplacedAll equal.symm
      exact absurd lone (several pos)
    · rfl
  refine ⟨front.apply read, s₁, ?_, advances, .call here kind reads⟩
  simp [node, same, equal]

/-- A reference to all elements is readable behind an object that needs no parentheses. -/
theorem Expr.Readable.flatten {object : Expr} {colon : Position}
    (readable : object.Readable nesting)
    (before : object.StandsBefore PostfixOperator.call.leftPower) :
    (Expr.flatten object [.colon colon] pos).Readable nesting := by
  have inside : ∀ arg ∈ [Expr.colon colon], arg.isColon = false → arg.Readable .group := by
    simp [Expr.isColon]
  have spelling : (Expr.flatten object [.colon colon] pos).spelling = object.spelling ++
      (.kind .leftParen :: (listSpelling (.kind .comma) (spellings [.colon colon]) ++
        [.kind .rightParen])) := by simp [Expr.spelling]
  refine .of_suffix readable spelling rfl before (fun same => by cases same) (begins_of_kind rfl)
    fun s token run rest front fills known here tight _ same => ?_
  obtain ⟨read, s₁, equal, advances, kind, reads⟩ :=
    bracketed_read inside fills (.inl rfl) known here tight
  obtain ⟨place, rfl⟩ := eq_colon_of_unplacedAll equal
  refine ⟨front.apply [.colon place], s₁, ?_, advances, .call here kind reads⟩
  simp [Expr.apply, same]

/-- A subscript in braces is readable behind an object that needs no parentheses. -/
theorem Expr.Readable.cellIndex {object : Expr} {args : List Expr}
    (readable : object.Readable nesting)
    (before : object.StandsBefore PostfixOperator.cellIndex.leftPower)
    (inside : ∀ arg ∈ args, arg.isColon = false → arg.Readable .group) :
    (Expr.cellIndex object args pos).Readable nesting := by
  have spelling : (Expr.cellIndex object args pos).spelling = object.spelling ++
      (.kind .leftBrace :: (listSpelling (.kind .comma) (spellings args) ++
        [.kind .rightBrace])) := by simp [Expr.spelling]
  refine .of_suffix readable spelling rfl before (fun same => by cases same) (begins_of_kind rfl)
    fun s token run rest front fills known here tight _ same => ?_
  obtain ⟨read, s₁, equal, advances, kind, reads⟩ :=
    bracketed_read inside fills (.inr rfl) known here tight
  exact ⟨.cellIndex front read front.pos, s₁, by simp [same, equal], advances,
    .cellIndex here kind reads⟩

/-- A named field is readable behind an object that needs no parentheses. -/
theorem Expr.Readable.named {object : Expr} {name : Ident} (readable : object.Readable nesting)
    (before : object.StandsBefore PostfixOperator.field.leftPower) :
    (Expr.member object (.named name) pos).Readable nesting := by
  refine .of_suffix readable rfl rfl before (fun same => by cases same) (begins_of_kind rfl)
    fun s token run rest front fills known here tight _ same => ?_
  obtain ⟨dot, later, rfl, kind, behind⟩ := Layout.Fills.uncons_kind fills
  cases behind with
  | @token _ _ field _ written done =>
    cases done
    obtain ⟨there, next⟩ := State.peek_of_rest known
    obtain rfl : token = dot := Option.some.inj (here.symm.trans there)
    obtain ⟨second, -⟩ := State.peek_of_rest next
    obtain ⟨word, text⟩ := written
    refine ⟨.member front (.named (Parser.declared field)) token.pos, s.next.next, ?_,
      .cons here (.next second), .member here kind second word⟩
    simp [Parser.declared, text, same]

/-- A field named by an expression is readable when the object and the expression are. -/
theorem Expr.Readable.dynamic {object inner : Expr} (readable : object.Readable nesting)
    (before : object.StandsBefore PostfixOperator.field.leftPower)
    (inside : inner.Readable .group) :
    (Expr.member object (.dynamic inner) pos).Readable nesting := by
  have spelling : (Expr.member object (.dynamic inner) pos).spelling = object.spelling ++
      (.kind .dot :: .kind .leftParen :: (inner.spelling ++ [.kind .rightParen])) := by
    simp [Expr.spelling]
  refine .of_suffix readable spelling rfl before (fun same => by cases same) (begins_of_kind rfl)
    fun s token run rest front fills known here tight _ same => ?_
  obtain ⟨dot, later, rfl, kind, behind⟩ := Layout.Fills.uncons_kind fills
  obtain ⟨opening, later, rfl, opens, behind⟩ := Layout.Fills.uncons_kind behind
  obtain ⟨run, tail, rfl, content, last⟩ := behind.split
  obtain ⟨closing, nothing, rfl, closes, done⟩ := Layout.Fills.uncons_kind last
  cases done
  have known : s.rest = dot :: opening :: (run ++ closing :: rest) := by simpa using known
  obtain ⟨there, next⟩ := State.peek_of_rest known
  obtain rfl : token = dot := Option.some.inj (here.symm.trans there)
  obtain ⟨second, later⟩ := State.peek_of_rest next
  obtain ⟨read, s₁, equal, advances, reads, closed⟩ := inside.enclosed content closes later
    (tight.behind (.cons here (.next second)))
  exact ⟨.member front (.dynamic read) token.pos, s₁.next,
    by simp [same, equal], .cons here (advances.cons second),
    .dynamic here kind (opens ▸ State.peekKind_of_peek second) reads closed⟩

/-- The marks of a transpose are readable when its operand ends in none, since all marks that follow
each other are one operator. -/
theorem Expr.Readable.transpose {operand : Expr} {marks : String}
    (readable : operand.Readable nesting)
    (before : operand.StandsBefore PostfixOperator.transpose.leftPower)
    (unmarked : operand.endsInMark = false) :
    (Expr.transpose operand marks pos).Readable nesting := by
  refine .of_suffix readable rfl rfl before (fun _ => unmarked) (fun run fills => ?_)
    fun s token run rest front fills known here tight closed same => ?_
  · obtain ⟨tokens, later, rfl, nonempty, all, -, -⟩ := Layout.Fills.uncons_marks fills
    obtain ⟨first, tokens, rfl⟩ := List.exists_cons_of_ne_nil nonempty
    exact ⟨first, _, rfl, Kind.postfix_of_isMark (all first List.mem_cons_self)⟩
  · obtain ⟨tokens, later, rfl, nonempty, all, text, done⟩ := Layout.Fills.uncons_marks fills
    cases done
    rw [List.append_nil] at known
    obtain ⟨taken, left⟩ := State.skip_of_rest known all (closed.unmarked rfl)
    obtain ⟨first, tokens, rfl⟩ := List.exists_cons_of_ne_nil nonempty
    obtain ⟨there, -⟩ := State.peek_of_rest known
    obtain rfl : token = first := Option.some.inj (here.symm.trans there)
    have moves := State.Advances.skip s Kind.isMark
    rw [taken] at moves
    refine ⟨.transpose front s.marks token.pos, s.skip Kind.isMark, ?_, by simpa using moves,
      .transpose here (all token List.mem_cons_self)⟩
    rw [State.marks, taken, text]
    exact congrArg (Expr.transpose · marks .origin) same

/-- A tree that is shaped and grouped is readable: inside of brackets if it has to be, and elsewhere
anywhere. -/
theorem Expr.Shaped.readable {inside : Bool} {whole : Expr} (shaped : whole.Shaped inside)
    (grouped : whole.WellGrouped) (bracketed : nesting = .outside → inside = false) :
    whole.Readable nesting := by
  induction shaped generalizing nesting with
  | ident plain => exact .ident plain
  | number => exact .number
  | string => exact .string
  | lastIndex => exact .lastIndex fun outside => by cases bracketed outside
  | handle => exact .handle
  | parens _ ih =>
    obtain ⟨-, parts⟩ := grouped
    exact .parens (ih (parts _ (by simp [Expr.parts])) (fun outside => by cases outside))
  | matrix filled _ ih =>
    obtain ⟨-, parts⟩ := grouped
    exact .matrix filled fun row row_mem element element_mem => ih row row_mem element element_mem
      (parts element (List.mem_flatten.mpr ⟨row, row_mem, element_mem⟩))
      (fun outside => by cases outside)
  | cell filled _ ih =>
    obtain ⟨-, parts⟩ := grouped
    exact .cell filled fun row row_mem element element_mem => ih row row_mem element element_mem
      (parts element (List.mem_flatten.mpr ⟨row, row_mem, element_mem⟩))
      (fun outside => by cases outside)
  | unary _ ih =>
    obtain ⟨behind, parts⟩ := grouped
    exact .unary (ih (parts _ (by simp [Expr.parts])) bracketed) behind
  | lambda _ ih =>
    obtain ⟨behind, parts⟩ := grouped
    exact .lambda (ih (parts _ (by simp [Expr.parts])) bracketed) behind
  | binary _ _ leftIh rightIh =>
    obtain ⟨⟨before, behind⟩, parts⟩ := grouped
    exact .binary (leftIh (parts _ (by simp [Expr.parts])) bracketed)
      (rightIh (parts _ (by simp [Expr.parts])) bracketed) before behind
  | shortRange _ _ startIh stopIh =>
    obtain ⟨⟨before, long, -, behind, -⟩, parts⟩ := grouped
    exact .shortRange (startIh (parts _ (by simp [Expr.parts])) bracketed)
      (stopIh (parts _ (by simp [Expr.parts])) bracketed) before long behind
  | longRange _ _ _ startIh stepIh stopIh =>
    obtain ⟨⟨before, long, middle, behind, -⟩, parts⟩ := grouped
    obtain ⟨stepBefore, stepBehind, -⟩ := middle _ rfl
    exact .longRange (startIh (parts _ (by simp [Expr.parts])) bracketed)
      (stepIh (parts _ (by simp [Expr.parts])) bracketed)
      (stopIh (parts _ (by simp [Expr.parts])) bracketed) before long ⟨stepBefore, stepBehind⟩
      behind
  | call _ several _ calleeIh argsIh =>
    obtain ⟨before, parts⟩ := grouped
    exact .call (calleeIh (parts _ (by simp [Expr.parts])) bracketed) before several
      fun arg member bare => argsIh arg member bare (parts arg (by simp [Expr.parts, member]))
        (fun outside => by cases outside)
  | flatten _ ih =>
    obtain ⟨before, parts⟩ := grouped
    exact .flatten (ih (parts _ (by simp [Expr.parts])) bracketed) before
  | cellIndex _ _ ih argsIh =>
    obtain ⟨before, parts⟩ := grouped
    exact .cellIndex (ih (parts _ (by simp [Expr.parts])) bracketed) before
      fun arg member bare => argsIh arg member bare (parts arg (by simp [Expr.parts, member]))
        (fun outside => by cases outside)
  | named _ ih =>
    obtain ⟨before, parts⟩ := grouped
    exact .named (ih (parts _ (by simp [Expr.parts])) bracketed) before
  | dynamic _ _ ih innerIh =>
    obtain ⟨before, parts⟩ := grouped
    exact .dynamic (ih (parts _ (by simp [Expr.parts])) bracketed) before
      (innerIh (parts _ (by simp [Expr.parts, Field.parts])) (fun outside => by cases outside))
  | @transpose _ operand _ _ _ plain ih =>
    obtain ⟨before, parts⟩ := grouped
    have here : operand.WellGrouped := parts operand (by simp [Expr.parts])
    refine .transpose (ih here bracketed) before (Bool.eq_false_iff.mpr fun marked => ?_)
    rw [here.isTranspose_of_endsInMark before marked] at plain
    cases plain

end MatlabFront
