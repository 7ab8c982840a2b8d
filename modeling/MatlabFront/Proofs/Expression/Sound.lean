import MatlabFront.Proofs.Expression.Steps

/-!
# Accepted expressions follow the grammar

Whatever the parser of expressions reads, the rules of the grammar read between the same two states
and with the same tree. The proof is by induction on the steps, with one lemma for each function:
what it reads with one more step follows the rules if its parts do.
-/

namespace MatlabFront

namespace Grammar

/-- What is read with some steps follows the rules. -/
def SoundAt (steps : Nat) : Prop :=
  ∀ phrase s final, Phrase.Accepted steps s final phrase → Reads phrase s final

variable {steps : Nat} {s final : State}

/-- What the parser of expressions accepts follows the rules, if operands and operators do with a
step less. -/
theorem expression_sound (sound : SoundAt steps) {nesting : Nesting} {power : Nat} {whole : Expr}
    (run : Parser.expression (steps + 1) nesting power s = .done whole final) :
    Reads (.expression nesting power whole) s final := by
  simp only [Parser.expression_succ, Outcome.bind_eq_done] at run
  obtain ⟨left, middle, head, tail⟩ := run
  exact .expression (sound (.operand nesting left) _ _ head)
    (sound (.operators nesting power left whole) _ _ tail)

/-- The loop of the operators accepts by the rules for the operators behind an operand. -/
theorem operators_sound (sound : SoundAt steps) {nesting : Nesting} {power : Nat}
    {left whole : Expr}
    (run : Parser.operators (steps + 1) nesting power left s = .done whole final) :
    Reads (.operators nesting power left whole) s final := by
  by_cases stops : s.Stops nesting power
  · rw [Parser.operators_of_stops stops, Outcome.done.injEq] at run
    obtain ⟨rfl, rfl⟩ := run
    exact .stop stops
  -- Otherwise an operator of enough power comes next, and the table says of which sort it is.
  · obtain ⟨token, goes⟩ := Classical.not_forall.mp stops
    obtain ⟨known, goes⟩ := Classical.not_imp.mp goes
    obtain ⟨gap, power', entry, strong⟩ :
        s.atGap nesting = false ∧ ∃ left, token.kind.leftPower? = some left ∧ power ≤ left := by
      simpa using goes
    cases suffix : token.kind.postfixOperator? with
    | some operator =>
      obtain rfl : operator.leftPower = power' := by simpa [Kind.leftPower?, suffix] using entry
      rw [Parser.operators_of_postfix known gap suffix strong, Outcome.bind_eq_done] at run
      obtain ⟨middle, s₁, head, tail⟩ := run
      exact .postfixed known gap suffix strong
        (sound (.suffix left token middle) _ _ ⟨known, operator, suffix, head⟩)
        (sound (.operators nesting power middle whole) _ _ tail)
    | none =>
      obtain ⟨operator, infixes, rfl⟩ :
          ∃ operator, token.kind.infixOperator? = some operator ∧ operator.leftPower = power' := by
        simpa [Kind.leftPower?, suffix] using entry
      rw [Parser.operators_of_infix known gap suffix infixes strong, Outcome.bind_eq_done] at run
      obtain ⟨right, s₁, head, tail⟩ := run
      exact .infixed known gap infixes strong
        (sound (.expression nesting operator.rightPower right) _ _ head)
        (sound (.operators nesting power _ whole) _ _ tail)

/-- What is accepted as an operand follows one of the rules for operands. -/
theorem operand_sound (sound : SoundAt steps) {nesting : Nesting} {whole : Expr}
    (run : Parser.operand (steps + 1) nesting s = .done whole final) :
    Reads (.operand nesting whole) s final := by
  cases known : s.peek with
  | none => simp [Parser.operand_of_end known] at run
  | some token =>
    rw [Parser.operand_of_peek known] at run
    split at run
    case h_1 kind =>
      obtain ⟨rfl, rfl⟩ := Outcome.done.inj run
      exact .ident known kind
    case h_2 kind =>
      obtain ⟨rfl, rfl⟩ := Outcome.done.inj run
      exact .number known kind
    case h_3 kind =>
      obtain ⟨rfl, rfl⟩ := Outcome.done.inj run
      exact .string known kind
    case h_4 kind =>
      split at run
      · next inside =>
        obtain ⟨rfl, rfl⟩ := Outcome.done.inj run
        exact .lastIndex known kind inside.1 inside.2
      · simp at run
    case h_5 kind =>
      split at run
      · next alone =>
        obtain ⟨rfl, rfl⟩ := Outcome.done.inj run
        exact .colon known kind alone
      · simp at run
    case h_6 kind =>
      split at run
      · next alone =>
        obtain ⟨rfl, rfl⟩ := Outcome.done.inj run
        exact .ignored known kind alone
      · next attached =>
        obtain ⟨inner, s₁, head, tail⟩ := Outcome.bind_eq_done.mp run
        obtain ⟨rfl, rfl⟩ := Outcome.done.inj tail
        exact .unary known (by rw [kind]; rfl) (fun _ => by simpa using attached)
          (sound (.expression nesting _ inner) _ _ head)
    case h_7 kind =>
      obtain ⟨inner, s₁, head, tail⟩ := Outcome.bind_eq_done.mp run
      obtain ⟨rfl, rfl⟩ := Outcome.done.inj tail
      exact .unary known (by rw [kind]; rfl) (fun tilde => by simp [kind] at tilde)
        (sound (.expression nesting _ inner) _ _ head)
    case h_8 kind =>
      obtain ⟨inner, s₁, head, tail⟩ := Outcome.bind_eq_done.mp run
      obtain ⟨rfl, rfl⟩ := Outcome.done.inj tail
      exact .unary known (by rw [kind]; rfl) (fun tilde => by simp [kind] at tilde)
        (sound (.expression nesting _ inner) _ _ head)
    case h_9 kind => exact .atSign known kind (sound (.handle nesting token.pos whole) _ _ run)
    case h_10 kind =>
      obtain ⟨inner, s₁, head, tail⟩ := Outcome.bind_eq_done.mp run
      rw [Parser.discard_bind, Outcome.bind_eq_done] at tail
      obtain ⟨close, s₂, closed, last⟩ := tail
      obtain ⟨here, kinds, rfl⟩ := Parser.expect_eq_done.mp closed
      obtain ⟨rfl, rfl⟩ := Outcome.done.inj last
      exact .parens known kind (sound (.expression .group 0 inner) _ _ head)
        (kinds ▸ State.peekKind_of_peek here)
    case h_11 kind =>
      obtain ⟨⟨row, rows⟩, s₁, head, tail⟩ := Outcome.bind_eq_done.mp run
      obtain ⟨rfl, rfl⟩ := Outcome.done.inj tail
      exact .matrix known kind (sound (.elements .rightBracket false row rows) _ _ head)
    case h_12 kind =>
      obtain ⟨⟨row, rows⟩, s₁, head, tail⟩ := Outcome.bind_eq_done.mp run
      obtain ⟨rfl, rfl⟩ := Outcome.done.inj tail
      exact .cell known kind (sound (.elements .rightBrace false row rows) _ _ head)
    case h_13 => simp at run
    case h_14 => simp at run

/-- What is accepted behind the sign of a handle is parameters and a body, or a name. -/
theorem handle_sound (sound : SoundAt steps) {nesting : Nesting} {pos : Position} {whole : Expr}
    (run : Parser.handle (steps + 1) nesting pos s = .done whole final) :
    Reads (.handle nesting pos whole) s final := by
  cases known : s.peek with
  | none => simp [Parser.handle_of_end known] at run
  | some token =>
    rw [Parser.handle_of_peek known] at run
    split at run
    case h_1 kind =>
      obtain ⟨params, s₁, head, tail⟩ := Outcome.bind_eq_done.mp run
      obtain ⟨body, s₂, middle, last⟩ := Outcome.bind_eq_done.mp tail
      obtain ⟨rfl, rfl⟩ := Outcome.done.inj last
      exact .lambda (kind ▸ State.peekKind_of_peek known) (sound (.parameters params) _ _ head)
        (sound (.expression nesting lambdaBodyPower body) _ _ middle)
    case h_2 kind =>
      obtain ⟨rfl, rfl⟩ := Outcome.done.inj run
      exact .named known kind
    case h_3 => simp at run

/-- What is accepted of a literal follows the rules for elements and separators. -/
theorem elements_sound (sound : SoundAt steps) {close : Kind} {afterElement : Bool}
    {row : List Expr} {rows : List (List Expr)}
    (run : Parser.elements (steps + 1) close afterElement s = .done (row, rows) final) :
    Reads (.elements close afterElement row rows) s final := by
  cases known : s.peekKind with
  | none => simp [Parser.elements_of_end known] at run
  | some kind =>
    rw [Parser.elements_of_peekKind known] at run
    by_cases closes : kind = close
    · rw [if_pos closes, Outcome.done.injEq, Prod.mk.injEq] at run
      obtain ⟨⟨rfl, rfl⟩, rfl⟩ := run
      exact .close (closes ▸ known)
    rw [if_neg closes] at run
    by_cases breaks : kind = .semicolon ∨ kind = .newline
    · rw [if_pos breaks, Outcome.bind_eq_done] at run
      obtain ⟨⟨first, later⟩, s₁, head, tail⟩ := run
      obtain ⟨pair, rfl⟩ := Outcome.done.inj tail
      obtain ⟨rfl, rfl⟩ := Prod.mk.inj pair
      exact .rowEnd known closes breaks (sound (.elements close false first later) _ _ head)
    rw [if_neg breaks] at run
    by_cases separates : kind = .comma
    · rw [if_pos separates] at run
      cases afterElement with
      | false => simp at run
      | true =>
        exact .comma (separates ▸ known) (separates ▸ closes)
          (sound (.elements close false row rows) _ _ run)
    rw [if_neg separates, Outcome.bind_eq_done] at run
    obtain ⟨first, s₁, head, tail⟩ := run
    obtain ⟨⟨later, more⟩, s₂, middle, last⟩ := Outcome.bind_eq_done.mp tail
    obtain ⟨pair, rfl⟩ := Outcome.done.inj last
    obtain ⟨rfl, rfl⟩ := Prod.mk.inj pair
    have plain : kind.isSeparator = false := by
      cases kind <;> simp_all [Kind.isSeparator]
    exact .element known closes plain (sound (.expression .elements 0 first) _ _ head)
      (sound (.elements close true later more) _ _ middle)

/-- What is accepted as a postfix operator follows one of the rules for these. -/
theorem suffix_sound (sound : SoundAt steps) {left whole : Expr} {token : Token}
    {operator : PostfixOperator} (known : s.peek = some token)
    (entry : token.kind.postfixOperator? = some operator)
    (run : Parser.postfixNode (steps + 1) left operator token.pos s = .done whole final) :
    Reads (.suffix left token whole) s final := by
  rw [Parser.postfixNode_succ] at run
  cases operator with
  | call =>
    obtain ⟨args, s₁, head, tail⟩ := Outcome.bind_eq_done.mp run
    obtain ⟨rfl, rfl⟩ := Outcome.done.inj tail
    exact .call known (Kind.eq_of_postfix_call entry) (sound (.arguments .rightParen args) _ _ head)
  | cellIndex =>
    obtain ⟨args, s₁, head, tail⟩ := Outcome.bind_eq_done.mp run
    obtain ⟨rfl, rfl⟩ := Outcome.done.inj tail
    exact .cellIndex known (Kind.eq_of_postfix_cellIndex entry)
      (sound (.arguments .rightBrace args) _ _ head)
  | field =>
    have dot := Kind.eq_of_postfix_field entry
    cases named : s.next.peek with
    | none => simp [named] at run
    | some name =>
      simp only [named] at run
      split at run
      case h_1 kind =>
        obtain ⟨rfl, rfl⟩ := Outcome.done.inj run
        exact .member known dot named kind
      case h_2 kind =>
        obtain ⟨inner, s₁, head, tail⟩ := Outcome.bind_eq_done.mp run
        rw [Parser.discard_bind, Outcome.bind_eq_done] at tail
        obtain ⟨close, s₂, closed, last⟩ := tail
        obtain ⟨here, kinds, rfl⟩ := Parser.expect_eq_done.mp closed
        obtain ⟨rfl, rfl⟩ := Outcome.done.inj last
        exact .dynamic known dot (kind ▸ State.peekKind_of_peek named)
          (sound (.expression .group 0 inner) _ _ head) (kinds ▸ State.peekKind_of_peek here)
      case h_3 => simp at run
  | transpose =>
    obtain ⟨rfl, rfl⟩ := Outcome.done.inj run
    exact .transpose known (Kind.isMark_of_postfix_transpose entry)

/-- Accepted arguments are none at all or a list with its closing bracket. -/
theorem arguments_sound (sound : SoundAt steps) {close : Kind} {args : List Expr}
    (run : Parser.arguments (steps + 1) close s = .done args final) :
    Reads (.arguments close args) s final := by
  rw [Parser.arguments_succ] at run
  by_cases closes : s.peekKind = some close
  · rw [if_pos closes, Outcome.done.injEq] at run
    obtain ⟨rfl, rfl⟩ := run
    exact .noArguments closes
  · rw [if_neg closes] at run
    exact .arguments closes (sound (.argumentsFrom close args) _ _ run)

/-- An accepted list of arguments is one argument and the rest of the list. -/
theorem argumentsFrom_sound (sound : SoundAt steps) {close : Kind} {args : List Expr}
    (run : Parser.argumentsFrom (steps + 1) close s = .done args final) :
    Reads (.argumentsFrom close args) s final := by
  rw [Parser.argumentsFrom_succ] at run
  obtain ⟨first, s₁, head, tail⟩ := Outcome.bind_eq_done.mp run
  have first_read := sound (.expression .group 0 first) _ _ head
  by_cases more : s₁.peekKind = some .comma
  · rw [if_pos more, Outcome.bind_eq_done] at tail
    obtain ⟨later, s₂, middle, last⟩ := tail
    obtain ⟨rfl, rfl⟩ := Outcome.done.inj last
    exact .argument first_read more (sound (.argumentsFrom close later) _ _ middle)
  · rw [if_neg more, Outcome.bind_eq_done] at tail
    obtain ⟨token, s₂, closed, last⟩ := tail
    obtain ⟨here, kinds, rfl⟩ := Parser.expect_eq_done.mp closed
    obtain ⟨rfl, rfl⟩ := Outcome.done.inj last
    have closes : s₁.peekKind = some close := kinds ▸ State.peekKind_of_peek here
    refine .lastArgument first_read closes ?_
    rintro rfl
    exact more closes

/-- Accepted parameters are none at all or a list with its closing parenthesis. -/
theorem parameters_sound {params : List Param}
    (sound : ∀ params s final, Parser.parametersFrom steps s = .done params final →
      Reads (.parametersFrom params) s final)
    (run : Parser.parameters steps s = .done params final) :
    Reads (.parameters params) s final := by
  rw [Parser.parameters_apply] at run
  obtain ⟨token, s₁, opened, tail⟩ := Outcome.bind_eq_done.mp run
  obtain ⟨here, kinds, rfl⟩ := Parser.expect_eq_done.mp opened
  have opens : s.peekKind = some .leftParen := kinds ▸ State.peekKind_of_peek here
  by_cases closes : s.next.peekKind = some .rightParen
  · rw [if_pos closes, Outcome.done.injEq] at tail
    obtain ⟨rfl, rfl⟩ := tail
    exact .noParameters opens closes
  · rw [if_neg closes] at tail
    exact .parameters opens closes (sound _ _ _ tail)

/-- An accepted list of parameters is one parameter and the rest of the list. -/
theorem parametersFrom_sound {steps : Nat} {params : List Param} {s final : State}
    (run : Parser.parametersFrom steps s = .done params final) :
    Reads (.parametersFrom params) s final := by
  induction steps generalizing params s with
  | zero => simp [Parser.parametersFrom] at run
  | succ steps ih =>
    rw [Parser.parametersFrom_succ] at run
    cases declares : s.param? with
    | none => simp [declares] at run
    | some param =>
      simp only [declares] at run
      by_cases more : s.next.peekKind = some .comma
      · rw [if_pos more, Outcome.bind_eq_done] at run
        obtain ⟨later, s₁, head, tail⟩ := run
        obtain ⟨rfl, rfl⟩ := Outcome.done.inj tail
        exact .parameter declares more (ih head)
      · rw [if_neg more, Outcome.bind_eq_done] at run
        obtain ⟨token, s₁, closed, last⟩ := run
        obtain ⟨here, kinds, rfl⟩ := Parser.expect_eq_done.mp closed
        obtain ⟨rfl, rfl⟩ := Outcome.done.inj last
        exact .lastParameter declares (kinds ▸ State.peekKind_of_peek here)

/-- Whatever is read with some steps follows the rules. -/
theorem soundAt (steps : Nat) : SoundAt steps := by
  induction steps with
  | zero =>
    intro phrase s final run
    cases phrase with
    | suffix left token whole =>
      obtain ⟨-, operator, -, run⟩ := run
      simp [Parser.postfixNode] at run
    | parameters params =>
      exact parameters_sound (fun _ _ _ => parametersFrom_sound) run
    | parametersFrom params => exact parametersFrom_sound run
    | expression | operators | operand | handle | elements | arguments | argumentsFrom =>
      simp [Phrase.Accepted, Parser.expression, Parser.operators, Parser.operand, Parser.handle,
        Parser.elements, Parser.arguments, Parser.argumentsFrom] at run
  | succ steps sound =>
    intro phrase s final run
    cases phrase with
    | expression => exact expression_sound sound run
    | operators => exact operators_sound sound run
    | operand => exact operand_sound sound run
    | handle => exact handle_sound sound run
    | elements => exact elements_sound sound run
    | suffix =>
      obtain ⟨known, operator, entry, run⟩ := run
      exact suffix_sound sound known entry run
    | arguments => exact arguments_sound sound run
    | argumentsFrom => exact argumentsFrom_sound sound run
    | parameters => exact parameters_sound (fun _ _ _ => parametersFrom_sound) run
    | parametersFrom => exact parametersFrom_sound run

end Grammar

end MatlabFront
