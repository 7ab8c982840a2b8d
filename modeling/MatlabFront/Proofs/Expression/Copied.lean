import MatlabFront.Proofs.Expression.Balance
import MatlabFront.Proofs.Expression.Sound
import MatlabFront.Proofs.Parser.Copy

/-!
# Expressions in a copy of their tokens

A parse of an expression looks at the gaps between tokens only in literals. So it is followed by the
parse of a copy that has the same gaps in literals, whatever the positions of its tokens are and
whatever stands in front of it. There is one lemma for each function, and induction on the steps
puts them together.
-/

namespace MatlabFront

/-- Where the elements of a literal are read, the innermost bracket is that of a literal. -/
def State.Inside (s : State) (nesting : Nesting) : Prop :=
  nesting = .elements → InLiteral s.consumed.reverse

namespace State.Inside

variable {s s₁ : State} {nesting : Nesting}

/-- Outside of all brackets nothing is asked of the innermost one. -/
theorem outside : s.Inside .outside := nofun

/-- In parentheses nothing is asked of the innermost bracket either. -/
theorem group : s.Inside .group := nofun

/-- Where the same brackets are open, the same literal is read. -/
theorem congr (inside : s.Inside nesting) (same : s₁.brackets = s.brackets) :
    s₁.Inside nesting := by
  intro elements
  have literal : s.brackets.head? = some .leftBracket ∨ s.brackets.head? = some .leftBrace :=
    inside elements
  rwa [← same] at literal

/-- Behind what is no bracket the same literal is read. -/
theorem plain {token : Token} (inside : s.Inside nesting) (known : s.peek = some token)
    (plain : token.kind.Plain) : s.next.Inside nesting :=
  inside.congr (s.brackets_plain (peekKind_of_peek known) plain)

/-- Behind the opening bracket of a literal its elements are read. -/
theorem opened {token : Token} (known : s.peek = some token)
    (opens : token.kind = .leftBracket ∨ token.kind = .leftBrace) : s.next.Inside .elements := by
  intro _
  have bracket : token.kind.opensBracket = true := by
    rcases opens with kind | kind
    · rw [kind]; rfl
    · rw [kind]; rfl
  have literal : s.next.brackets.head? = some .leftBracket ∨
      s.next.brackets.head? = some .leftBrace := by
    rw [s.brackets_opened (peekKind_of_peek known) bracket]
    exact opens.imp (congrArg some) (congrArg some)
  exact literal

end State.Inside

namespace Copy

/-- The elements left in a row of a literal and the rows after it, with every position moved. -/
def relocateElements (move : Position → Position) (rest : List Expr × List (List Expr)) :
    List Expr × List (List Expr) :=
  (rest.1.map (Expr.relocate move), rest.2.map (List.map (Expr.relocate move)))

/-- What is read of an expression in a copy follows what is read of it in its tokens. -/
structure FollowsExpressions (copy : Copy) (exact : Prop) (steps more : Nat) : Prop where
  expression {s s' : State} (nesting : Nesting) (power : Nat) : copy.Carries s s' →
    s.Inside nesting → copy.Follows exact (Expr.relocate copy.move)
      (Parser.expression steps nesting power s) (Parser.expression more nesting power s')
  operators {s s' : State} (nesting : Nesting) (power : Nat) (left : Expr) : copy.Carries s s' →
    s.Inside nesting → copy.Follows exact (Expr.relocate copy.move)
      (Parser.operators steps nesting power left s)
      (Parser.operators more nesting power (left.relocate copy.move) s')
  operand {s s' : State} (nesting : Nesting) : copy.Carries s s' → s.Inside nesting →
    copy.Follows exact (Expr.relocate copy.move)
      (Parser.operand steps nesting s) (Parser.operand more nesting s')
  handle {s s' : State} (nesting : Nesting) (pos : Position) : copy.Carries s s' →
    s.Inside nesting → copy.Follows exact (Expr.relocate copy.move)
      (Parser.handle steps nesting pos s) (Parser.handle more nesting (copy.move pos) s')
  elements {s s' : State} (close : Kind) (afterElement : Bool) : copy.Carries s s' →
    s.Inside .elements → copy.Follows exact (relocateElements copy.move)
      (Parser.elements steps close afterElement s) (Parser.elements more close afterElement s')
  postfixNode {s s' : State} (left : Expr) (operator : PostfixOperator) (pos : Position) :
    copy.Carries s s' → copy.Follows exact (Expr.relocate copy.move)
      (Parser.postfixNode steps left operator pos s)
      (Parser.postfixNode more (left.relocate copy.move) operator (copy.move pos) s')
  arguments {s s' : State} (close : Kind) : copy.Carries s s' →
    copy.Follows exact (List.map (Expr.relocate copy.move))
      (Parser.arguments steps close s) (Parser.arguments more close s')
  argumentsFrom {s s' : State} (close : Kind) : copy.Carries s s' →
    copy.Follows exact (List.map (Expr.relocate copy.move))
      (Parser.argumentsFrom steps close s) (Parser.argumentsFrom more close s')

variable {copy : Copy} {exact : Prop} {steps more : Nat} {s s' : State} {nesting : Nesting}

namespace Carries

/-- A new element begins in the copy where one begins in the tokens that are copied. -/
theorem atGap (carries : copy.Carries s s') (faithful : copy.Faithful) (inside : s.Inside nesting) :
    s'.atGap nesting = s.atGap nesting := by
  unfold State.atGap
  by_cases literal : nesting = .elements
  · rw [carries.gapBeginsElement faithful (inside literal)]
  · have other : (nesting == .elements) = false := beq_eq_false_iff_ne.mpr literal
    rw [other, Bool.false_and, Bool.false_and]

/-- A colon is a whole subscript in the copy where it is one in the tokens that are copied. -/
theorem colonAlone (carries : copy.Carries s s') :
    s'.colonAlone nesting = s.colonAlone nesting := by
  unfold State.colonAlone
  rw [carries.secondKind]

/-- A tilde is an output to ignore in the copy where it is one in the tokens that are copied. -/
theorem tildeAlone (carries : copy.Carries s s') :
    s'.tildeAlone nesting = s.tildeAlone nesting := by
  unfold State.tildeAlone
  rw [carries.secondKind]

/-- The transpose marks of the copy have the same text. -/
theorem marks (carries : copy.Carries s s') : s'.marks = s.marks := by
  have kinds : (fun token : Token => token.kind.isMark) ∘ Token.relocate copy.move =
    fun token => token.kind.isMark := rfl
  have texts : (fun token : Token => token.text) ∘ Token.relocate copy.move =
    fun token => token.text := rfl
  rw [State.marks, carries.rest, List.takeWhile_map, kinds, List.map_map, texts, State.marks]

/-- The copy declares the same parameter, with its position moved. -/
theorem param? (carries : copy.Carries s s') :
    s'.param? = s.param?.map (Param.relocate copy.move) := by
  rw [State.param?, State.param?, carries.peek]
  cases s.peek with
  | none => rfl
  | some token =>
    by_cases ignored : token.kind = .tilde
    · simp [ignored]
    by_cases name : token.kind = .ident
    · simp [name]
    · simp [ignored, name]

end Carries

/-- A list of parameters takes no literal. -/
theorem parametersFrom_follows (enough : steps ≤ more) (same : exact → steps = more)
    (carries : copy.Carries s s') :
    copy.Follows exact (List.map (Param.relocate copy.move)) (Parser.parametersFrom steps s)
      (Parser.parametersFrom more s') := by
  induction steps generalizing more s s' with
  | zero => exact .exhausted fun exactly => (same exactly) ▸ rfl
  | succ steps ih =>
    obtain ⟨more, rfl⟩ := Nat.exists_eq_succ_of_ne_zero (Nat.ne_zero_of_lt enough)
    rw [Parser.parametersFrom_succ, Parser.parametersFrom_succ, carries.param?]
    cases s.param? with
    | none => exact .complain carries _
    | some param =>
      simp only [Option.map_some, carries.next.peekKind]
      split
      · refine (ih (Nat.le_of_succ_le_succ enough) (fun exactly => Nat.succ.inj (same exactly))
          carries.next.next).bind fun later _ _ _ carries => ?_
        exact .pure carries _ rfl
      · refine (Follows.expect carries.next _).bind fun _ _ _ _ carries => ?_
        exact .pure carries _ rfl

/-- A list of parameters follows its copy. -/
theorem parameters_follows (enough : steps ≤ more) (same : exact → steps = more)
    (carries : copy.Carries s s') :
    copy.Follows exact (List.map (Param.relocate copy.move)) (Parser.parameters steps s)
      (Parser.parameters more s') := by
  rw [Parser.parameters_apply, Parser.parameters_apply]
  refine (Follows.expect carries _).bind fun _ s₁ s₁' _ carries => ?_
  rw [carries.peekKind]
  split
  · exact .value carries.next rfl
  · exact parametersFrom_follows enough same carries

section Steps

variable (follows : copy.FollowsExpressions exact steps more) (carries : copy.Carries s s')
include follows carries

/-- An expression follows its copy when its operands and operators do with a step less. -/
theorem expression_follows (power : Nat) (inside : s.Inside nesting) :
    copy.Follows exact (Expr.relocate copy.move) (Parser.expression (steps + 1) nesting power s)
      (Parser.expression (more + 1) nesting power s') := by
  rw [Parser.expression_succ, Parser.expression_succ]
  refine (follows.operand nesting carries inside).bind fun left s₁ s₁' run carries => ?_
  have kept := (Grammar.soundAt steps (.operand nesting left) s s₁ run).balanced trivial
  exact follows.operators nesting power left carries (inside.congr kept)

/-- The same operators are taken, because the same gaps are seen. -/
theorem operators_follows (faithful : copy.Faithful) (power : Nat) (left : Expr)
    (inside : s.Inside nesting) :
    copy.Follows exact (Expr.relocate copy.move)
      (Parser.operators (steps + 1) nesting power left s)
      (Parser.operators (more + 1) nesting power (left.relocate copy.move) s') := by
  have gap := carries.atGap faithful inside
  by_cases stops : s.Stops nesting power
  · have stops' : s'.Stops nesting power := by
      intro token known
      rw [carries.peek] at known
      obtain ⟨original, here, rfl⟩ := Option.map_eq_some_iff.mp known
      rw [gap]
      exact stops original here
    rw [Parser.operators_of_stops stops, Parser.operators_of_stops stops']
    exact .done carries
  obtain ⟨token, goes⟩ := Classical.not_forall.mp stops
  obtain ⟨known, goes⟩ := Classical.not_imp.mp goes
  obtain ⟨none, power', entry, strong⟩ :
      s.atGap nesting = false ∧ ∃ left, token.kind.leftPower? = some left ∧ power ≤ left := by
    simpa using goes
  rw [none] at gap
  have here := carries.peek_of known
  cases suffix : token.kind.postfixOperator? with
  | some operator =>
    obtain rfl : operator.leftPower = power' := by simpa [Kind.leftPower?, suffix] using entry
    rw [Parser.operators_of_postfix known none suffix strong,
      Parser.operators_of_postfix here gap suffix strong]
    refine (follows.postfixNode left operator token.pos carries).bind
      fun middle s₁ s₁' run carries => ?_
    have reads := Grammar.soundAt steps (.suffix left token middle) s s₁
      ⟨known, operator, suffix, run⟩
    exact follows.operators nesting power middle carries (inside.congr (reads.balanced trivial))
  | none =>
    obtain ⟨operator, infixes, rfl⟩ :
        ∃ operator, token.kind.infixOperator? = some operator ∧ operator.leftPower = power' := by
      simpa [Kind.leftPower?, suffix] using entry
    rw [Parser.operators_of_infix known none suffix infixes strong,
      Parser.operators_of_infix here gap suffix infixes strong]
    have behind := inside.plain known (Kind.plain_of_infix infixes)
    refine (follows.expression nesting _ carries.next behind).bind
      fun right s₁ s₁' run carries => ?_
    have kept := (Grammar.soundAt steps (.expression nesting _ right) _ s₁ run).balanced trivial
    rw [Token.relocate_pos, ← Expr.relocate_infixNode]
    exact follows.operators nesting power _ carries (behind.congr kept)

/-- An operand follows its copy when the phrases within it do with a step less. -/
theorem operand_follows (inside : s.Inside nesting) :
    copy.Follows exact (Expr.relocate copy.move) (Parser.operand (steps + 1) nesting s)
      (Parser.operand (more + 1) nesting s') := by
  cases known : s.peek with
  | none =>
    rw [Parser.operand_of_end known, Parser.operand_of_end (carries.peek_of_end known)]
    exact .complain carries _
  | some token =>
    have sign (operator : UnaryOperator) (entry : token.kind.unaryOperator? = some operator) :
        copy.Follows exact (Expr.relocate copy.move)
          ((Parser.expression steps nesting UnaryOperator.operandPower s.next).bind fun inner =>
            pure (.unary operator inner token.pos))
          ((Parser.expression more nesting UnaryOperator.operandPower s'.next).bind fun inner =>
            pure (.unary operator inner (copy.move token.pos))) := by
      have behind := inside.plain known (Kind.plain_of_unary entry)
      refine (follows.expression nesting _ carries.next behind).bind fun inner _ _ _ carries => ?_
      exact .pure carries _ (by simp)
    have literal (close : Kind) (node : List (List Expr) → Position → Expr)
        (opens : token.kind = .leftBracket ∨ token.kind = .leftBrace)
        (moved : ∀ rows, (node rows token.pos).relocate copy.move =
          node (rows.map (List.map (Expr.relocate copy.move))) (copy.move token.pos)) :
        copy.Follows exact (Expr.relocate copy.move)
          ((Parser.elements steps close false s.next).bind fun rest =>
            pure (node (Parser.rowsOf rest.1 rest.2) token.pos))
          ((Parser.elements more close false s'.next).bind fun rest =>
            pure (node (Parser.rowsOf rest.1 rest.2) (copy.move token.pos))) := by
      refine (follows.elements close false carries.next (.opened known opens)).bind
        fun rest _ _ _ carries => ?_
      exact .pure carries _ (by rw [moved, Parser.relocate_rowsOf]; rfl)
    rw [Parser.operand_of_peek known, Parser.operand_of_peek (carries.peek_of known),
      carries.colonAlone, carries.tildeAlone]
    simp only [Token.relocate_kind, Token.relocate_text, Token.relocate_pos]
    cases kind : token.kind with
    | ident => exact .value (carries.next.note _) (by simp)
    | number | string => exact .value carries.next (by simp)
    | endKeyword =>
      dsimp only
      split
      · exact .value carries.next (by simp)
      · exact .complain carries _
    | colon =>
      dsimp only
      split
      · exact .value carries.next (by simp)
      · exact .complain carries _
    | tilde =>
      dsimp only
      split
      · exact .value carries.next (by simp)
      · exact sign .not (by rw [kind]; rfl)
    | minus => exact sign .minus (by rw [kind]; rfl)
    | plus => exact sign .plus (by rw [kind]; rfl)
    | atSign => exact follows.handle nesting _ carries.next (inside.plain known (kind ▸ ⟨rfl, rfl⟩))
    | leftParen =>
      refine (follows.expression .group 0 carries.next .group).bind fun inner _ _ _ carries => ?_
      exact (Follows.expect carries _).discard.andThen fun _ _ _ _ carries =>
        .pure carries _ (by simp)
    | leftBracket => exact literal _ .matrix (.inl kind) (by simp)
    | leftBrace => exact literal _ .cell (.inr kind) (by simp)
    | _ => exact .complain carries _

/-- A handle or an anonymous function follows its copy when its body does with a step less. -/
theorem handle_follows (pos : Position) (inside : s.Inside nesting) (enough : steps ≤ more)
    (same : exact → steps = more) :
    copy.Follows exact (Expr.relocate copy.move) (Parser.handle (steps + 1) nesting pos s)
      (Parser.handle (more + 1) nesting (copy.move pos) s') := by
  cases known : s.peek with
  | none =>
    rw [Parser.handle_of_end known, Parser.handle_of_end (carries.peek_of_end known)]
    exact .complain carries _
  | some token =>
    rw [Parser.handle_of_peek known, Parser.handle_of_peek (carries.peek_of known)]
    simp only [Token.relocate_kind]
    cases kind : token.kind with
    | leftParen =>
      refine (parameters_follows enough same carries).bind fun params s₁ s₁' run carries => ?_
      have kept := (Grammar.soundAt steps (.parameters params) s s₁ run).balanced trivial
      refine (follows.expression nesting _ carries (inside.congr kept)).andThen
        fun body _ _ _ carries => ?_
      exact .pure carries _ (by simp)
    | ident => exact .value carries.next (by simp)
    | _ => exact .complain carries _

/-- The elements of a literal follow their copy when each of them does with a step less. -/
theorem elements_follows (close : Kind) (afterElement : Bool) (inside : s.Inside .elements) :
    copy.Follows exact (relocateElements copy.move)
      (Parser.elements (steps + 1) close afterElement s)
      (Parser.elements (more + 1) close afterElement s') := by
  cases known : s.peekKind with
  | none =>
    rw [Parser.elements_of_end known, Parser.elements_of_end (carries.peekKind.trans known)]
    exact .complain carries _
  | some kind =>
    obtain ⟨token, here, rfl⟩ := State.peek_of_peekKind known
    rw [Parser.elements_of_peekKind known,
      Parser.elements_of_peekKind (carries.peekKind.trans known)]
    split
    · exact .value carries.next rfl
    split
    · next separates =>
      have plain : token.kind.Plain := by
        rcases separates with kind | kind
        · exact kind ▸ ⟨rfl, rfl⟩
        · exact kind ▸ ⟨rfl, rfl⟩
      refine (follows.elements close false carries.next (inside.plain here plain)).bind
        fun rest _ _ _ carries => ?_
      exact .pure carries _ (by simp [relocateElements, Parser.relocate_rowsOf])
    split
    · next comma =>
      split
      · exact follows.elements close false carries.next (inside.plain here (comma ▸ ⟨rfl, rfl⟩))
      · exact .complain carries _
    · refine (follows.expression .elements 0 carries inside).bind fun first s₁ s₁' run carries => ?_
      have kept := (Grammar.soundAt steps (.expression .elements 0 first) s s₁ run).balanced trivial
      refine (follows.elements close true carries (inside.congr kept)).andThen
        fun rest _ _ _ carries => ?_
      exact .pure carries _ rfl

/-- A postfix operator follows its copy when what it encloses does with a step less. -/
theorem postfixNode_follows (left : Expr) (operator : PostfixOperator) (pos : Position) :
    copy.Follows exact (Expr.relocate copy.move)
      (Parser.postfixNode (steps + 1) left operator pos s)
      (Parser.postfixNode (more + 1) (left.relocate copy.move) operator (copy.move pos) s') := by
  rw [Parser.postfixNode_succ, Parser.postfixNode_succ]
  cases operator with
  | call =>
    refine (follows.arguments _ carries.next).bind fun args _ _ _ carries => ?_
    exact .pure carries _ (left.relocate_apply args).symm
  | cellIndex =>
    refine (follows.arguments _ carries.next).bind fun args _ _ _ carries => ?_
    exact .pure carries _ (by simp)
  | transpose => exact .value (carries.skip _) (by simp [carries.marks])
  | field =>
    cases known : s.next.peek with
    | none =>
      rw [carries.next.peek_of_end known]
      exact .complain carries.next _
    | some token =>
      rw [carries.next.peek_of known]
      simp only [Token.relocate_kind]
      cases kind : token.kind with
      | ident => exact .value carries.next.next (by simp)
      | leftParen =>
        refine (follows.expression .group 0 carries.next.next .group).bind
          fun name _ _ _ carries => ?_
        exact (Follows.expect carries _).discard.andThen fun _ _ _ _ carries =>
          .pure carries _ (by simp)
      | _ => exact .complain carries.next _

/-- Arguments follow their copy when those of a list that is not empty do. -/
theorem arguments_follows (close : Kind) :
    copy.Follows exact (List.map (Expr.relocate copy.move))
      (Parser.arguments (steps + 1) close s) (Parser.arguments (more + 1) close s') := by
  rw [Parser.arguments_succ, Parser.arguments_succ, carries.peekKind]
  split
  · exact .value carries.next rfl
  · exact follows.argumentsFrom close carries

/-- A list of arguments follows its copy when its first one and the rest do. -/
theorem argumentsFrom_follows (close : Kind) :
    copy.Follows exact (List.map (Expr.relocate copy.move))
      (Parser.argumentsFrom (steps + 1) close s) (Parser.argumentsFrom (more + 1) close s') := by
  rw [Parser.argumentsFrom_succ, Parser.argumentsFrom_succ]
  refine (follows.expression .group 0 carries .group).bind fun first _ _ _ carries => ?_
  rw [carries.peekKind]
  split
  · refine (follows.argumentsFrom close carries.next).bind fun later _ _ _ carries => ?_
    exact .pure carries _ rfl
  · refine (Follows.expect carries close).bind fun _ _ _ _ carries => ?_
    exact .pure carries _ rfl

end Steps

/-- A parse of an expression is followed in every copy with the same gaps in literals. -/
theorem followsExpressions (faithful : copy.Faithful) (enough : steps ≤ more)
    (same : exact → steps = more) : copy.FollowsExpressions exact steps more := by
  induction steps generalizing more with
  | zero =>
    exact {
      expression := fun _ _ _ _ => .exhausted fun exactly => (same exactly) ▸ rfl
      operators := fun _ _ _ _ _ => .exhausted fun exactly => (same exactly) ▸ rfl
      operand := fun _ _ _ => .exhausted fun exactly => (same exactly) ▸ rfl
      handle := fun _ _ _ _ => .exhausted fun exactly => (same exactly) ▸ rfl
      elements := fun _ _ _ _ => .exhausted fun exactly => (same exactly) ▸ rfl
      postfixNode := fun _ _ _ _ => .exhausted fun exactly => (same exactly) ▸ rfl
      arguments := fun _ _ => .exhausted fun exactly => (same exactly) ▸ rfl
      argumentsFrom := fun _ _ => .exhausted fun exactly => (same exactly) ▸ rfl }
  | succ steps ih =>
    obtain ⟨more, rfl⟩ := Nat.exists_eq_succ_of_ne_zero (Nat.ne_zero_of_lt enough)
    have enough := Nat.le_of_succ_le_succ enough
    have same := fun exactly => Nat.succ.inj (same exactly)
    have follows := ih enough same
    exact {
      expression := fun _ power carries inside => expression_follows follows carries power inside
      operators := fun _ power left carries inside =>
        operators_follows follows carries faithful power left inside
      operand := fun _ carries inside => operand_follows follows carries inside
      handle := fun _ pos carries inside =>
        handle_follows follows carries pos inside enough same
      elements := fun close afterElement carries inside =>
        elements_follows follows carries close afterElement inside
      postfixNode := fun left operator pos carries =>
        postfixNode_follows follows carries left operator pos
      arguments := fun close carries => arguments_follows follows carries close
      argumentsFrom := fun close carries => argumentsFrom_follows follows carries close }

end Copy

end MatlabFront
