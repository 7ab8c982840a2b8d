import MatlabFront.Proofs.Expression.Context
import MatlabFront.Proofs.Expression.WellGrouped

/-!
# Where an element of a literal ends

Inside a literal an expression stops in front of a token that is no operator, and in front of one
behind a gap that begins a new element. It stops there in all its open operators at once, however deep
they are nested, since each of them looks at the same gap. So what is read as one element is read in
the same way in front of whatever ends it. Only a tilde at its end has to be left out, which is an
operand of its own or not according to the token behind it.
-/

namespace MatlabFront

/-- The same tokens may follow. -/
theorem Nesting.Follows.refl (nesting : Nesting) (rest : List Token) :
    nesting.Follows rest rest := by
  cases nesting with
  | outside => exact .inl rfl
  | group => rfl
  | elements => exact ⟨rfl, fun _ _ _ => rfl⟩

namespace State

variable {s s' middle final : State} {nesting : Nesting} {run other : List Token}

/-- Where no operator at all is read, none of at least a power is. -/
theorem Stops.weaken (stops : s.Stops nesting 0) (power : Nat) : s.Stops nesting power := by
  intro token known
  obtain gap | plain := stops token known
  · exact .inl gap
  · exact .inr fun left entry => absurd (plain left entry) (Nat.not_lt_zero left)

/-- No mark comes next where an element ends. -/
theorem Stops.unmarked (stops : s.Stops .elements 0) :
    ∀ token ∈ s.rest.head?, token.kind.isMark = false := by
  intro token known
  refine Bool.eq_false_iff.mpr fun mark => ?_
  obtain gap | plain := stops token known
  · obtain ⟨later, rest⟩ := List.head?_eq_some_iff.mp known
    rw [atGap, rest] at gap
    cases last : s.consumed with
    | nil => simp [last, Parser.gapBeginsElement] at gap
    | cons => cases kind : token.kind <;> simp_all [Parser.gapBeginsElement, Kind.isMark]
  · exact absurd (plain _ (Kind.leftPower?_of_postfix (Kind.postfix_of_isMark mark)))
      (Nat.not_lt_zero _)

/-- The element that was read in front of a state ends there too when other tokens are left: none of
them goes on with it, and it does not end with a tilde. -/
structure Delimited (final : State) (other : List Token) : Prop where
  stops : ({ final with rest := other } : State).Stops .elements 0
  settled : ∀ last ∈ final.consumed.head?, last.kind ≠ .tilde

/-- Other tokens may be left where an element is being read: the same come next, or it ends. -/
def MayLeave (final : State) (other : List Token) : Prop :=
  Nesting.elements.Follows final.rest other ∨ final.Delimited other

/-- An element ends behind the last token that was read, wherever that stands. -/
theorem Delimited.stops_of (delimited : final.Delimited other) (rest : s'.rest = other)
    (last : final.consumed.head? = s'.consumed.head?) : s'.Stops .elements 0 :=
  delimited.stops.congr (fun _ => last) (rest ▸ Nesting.Follows.refl .elements other)

/-- In front of a run that was read, the same tokens come next. Behind a sign that is an operator
there is an operand, so that a sign is not the whole run. -/
theorem MayLeave.append (leaves : final.MayLeave other) (advances : middle.Advances run final)
    (signs : ∀ sign, run = [sign] → ¬(sign.kind = .plus ∨ sign.kind = .minus)) :
    middle.MayLeave (run ++ other) := by
  cases run with
  | nil =>
    have rest : middle.rest = final.rest := advances.rest
    have consumed : final.consumed = middle.consumed := advances.consumed
    obtain follows | ⟨stops, settled⟩ := leaves
    · exact .inl (rest ▸ follows)
    · refine .inr ⟨?_, consumed ▸ settled⟩
      exact stops.congr (fun _ => congrArg _ consumed) (Nesting.Follows.refl .elements other)
  | cons first more =>
    rw [MayLeave, advances.rest]
    refine .inl ⟨rfl, ?_⟩
    rintro token ⟨⟩ sign
    obtain ⟨second, later, rfl⟩ :=
      List.exists_cons_of_ne_nil fun none : more = [] => signs first (by rw [none]) sign
    rfl

end State

namespace Grammar

variable {s final : State}

/-- Operators that are read are not a sign alone. -/
theorem Reads.operators_sign {nesting : Nesting} {power : Nat} {left whole : Expr}
    {run : List Token} (reads : Reads (.operators nesting power left whole) s final)
    (advances : s.Advances run final) :
    ∀ sign, run = [sign] → ¬(sign.kind = .plus ∨ sign.kind = .minus) := by
  rintro sign rfl kind
  obtain ⟨here, -⟩ := State.peek_of_rest advances.rest
  have length := advances.length
  cases reads with
  | stop => simp at length
  | postfixed known _ entry =>
    obtain rfl := Option.some.inj (here.symm.trans known)
    exact Kind.not_sign_of_postfix entry kind
  | infixed known _ _ _ operand later =>
    have first := State.length_next known
    have second := operand.length_le
    have third := later.length_le
    simp only [Phrase.least, List.length_singleton] at *
    omega

/-- What is read in an element of a literal is read in the same way wherever the same tokens come next
or the element ends. -/
def Phrase.Separable (s final : State) : Phrase → Prop
  | .expression nesting power whole => nesting = .elements →
    Moves s final (fun _ => True) final.MayLeave (Reads (.expression nesting power whole))
  | .operators nesting power left whole => nesting = .elements →
    Moves s final (fun s' => s.consumed.head? = s'.consumed.head?) final.MayLeave
      (Reads (.operators nesting power left whole))
  | .operand nesting whole => nesting = .elements →
    Moves s final (fun _ => True) final.MayLeave (Reads (.operand nesting whole))
  | .handle nesting pos whole => nesting = .elements →
    Moves s final (fun _ => True) final.MayLeave (Reads (.handle nesting pos whole))
  | .suffix left token whole =>
    Moves s final (fun _ => True)
      (fun other => final.rest.head? = other.head? ∨
        ∀ next ∈ other.head?, next.kind.isMark = false) (Reads (.suffix left token whole))
  | _ => True

section

variable {nesting : Nesting} {power : Nat} {left right middle whole inner body : Expr}
  {params : List Param} {token : Token} {s₁ s₂ : State}

/-- An expression is separable when its first operand and the operators behind it are. -/
theorem separable_expression (operandReads : Reads (.operand nesting left) s s₁)
    (operatorsReads : Reads (.operators nesting power left whole) s₁ s₂)
    (head : (Phrase.operand nesting left).Separable s s₁)
    (tail : (Phrase.operators nesting power left whole).Separable s₁ s₂) :
    (Phrase.expression nesting power whole).Separable s s₂ := by
  rintro rfl
  have shorter := operandReads.length_lt (by simp [Phrase.least])
  refine ((head rfl).append (tail rfl) ?_ ?_).imp (fun _ _ => trivial) (fun _ leaves => leaves) ?_
  · exact fun s' middle' run one two _ => one.same_last two shorter
  · exact fun run other advances leaves =>
      leaves.append advances (operatorsReads.operators_sign advances)
  · rintro s' final' - - ⟨middle', operand, operators⟩
    exact .expression operand operators

/-- The operators of an expression stop where its element ends. -/
theorem separable_stop (stops : s.Stops nesting power) :
    (Phrase.operators nesting power left left).Separable s s := by
  rintro rfl
  refine ⟨[], .refl s, by simp, fun s' other rest starts leaves => ⟨s', .stop ?_, .refl s'⟩⟩
  obtain rfl : s'.rest = other := rest
  obtain follows | delimited := leaves
  · exact stops.congr (fun _ => starts) follows
  · exact (delimited.stops_of rfl starts).weaken power

/-- An operator behind its operand is separable with those behind it. No mark follows a transpose
where its element ends. -/
theorem separable_postfixed {operator : PostfixOperator} (known : s.peek = some token)
    (gap : s.atGap nesting = false) (entry : token.kind.postfixOperator? = some operator)
    (strong : power ≤ operator.leftPower) (suffixReads : Reads (.suffix left token middle) s s₁)
    (head : (Phrase.suffix left token middle).Separable s s₁)
    (tail : (Phrase.operators nesting power middle whole).Separable s₁ s₂) :
    (Phrase.operators nesting power left whole).Separable s s₂ := by
  rintro rfl
  have shorter := suffixReads.length_lt (by simp [Phrase.least])
  refine ((Moves.peek head shorter).append (tail rfl) ?_ ?_).imp (fun _ _ => trivial)
    (fun _ leaves => leaves) ?_
  · exact fun s' middle' run one two _ => one.same_last two shorter
  · intro run other advances leaves
    cases run with
    | nil =>
      have rest : s₁.rest = s₂.rest := advances.rest
      obtain follows | delimited := leaves
      · exact .inl (rest ▸ follows.1)
      · exact .inr delimited.stops.unmarked
    | cons first more => exact .inl (by rw [advances.rest]; rfl)
  · rintro s' final' starts - ⟨middle', ⟨same, suffix⟩, operators⟩
    have here : s'.peek = some token := same.trans known
    have gap' : s'.atGap .elements = false := by
      rw [atGap_congr (fun _ => starts) known here, gap]
      exact fun sign => absurd sign (Kind.not_sign_of_postfix entry)
    exact .postfixed here gap' entry strong suffix operators

/-- An operator between two operands is separable with those behind it. -/
theorem separable_infixed {operator : InfixOperator} (known : s.peek = some token)
    (gap : s.atGap nesting = false) (entry : token.kind.infixOperator? = some operator)
    (strong : power ≤ operator.leftPower)
    (operandReads : Reads (.expression nesting operator.rightPower right) s.next s₁)
    (operatorsReads : Reads (.operators nesting power
      (.infixNode operator left right token.pos) whole) s₁ s₂)
    (head : (Phrase.expression nesting operator.rightPower right).Separable s.next s₁)
    (tail : (Phrase.operators nesting power
      (.infixNode operator left right token.pos) whole).Separable s₁ s₂) :
    (Phrase.operators nesting power left whole).Separable s s₂ := by
  rintro rfl
  have clean : token.kind ≠ .error := Kind.ne_error_of_infix entry
  have shorter := operandReads.length_lt (by simp [Phrase.least])
  have first := State.length_next known
  refine ((((head rfl).peek shorter).cons known clean).append (tail rfl) ?_ ?_).imp
    (fun s' _ _ => trivial) (fun _ leaves => leaves) ?_
  · exact fun s' middle' run one two _ => one.same_last two (by omega)
  · exact fun run other advances leaves =>
      leaves.append advances (operatorsReads.operators_sign advances)
  · rintro s' final' starts - ⟨middle', ⟨here, same, operand⟩, operators⟩
    have gap' : s'.atGap .elements = false := by
      rw [atGap_congr (fun _ => starts) known here fun _ => same.symm, gap]
    exact .infixed here gap' entry strong operand operators

/-- A tilde alone is separable only in front of the same token, since an element does not end with
one. -/
theorem separable_ignored (known : s.peek = some token) (kind : token.kind = .tilde)
    (alone : s.tildeAlone nesting = true) :
    (Phrase.operand nesting (.ident ⟨"~", token.pos⟩)).Separable s s.next := by
  rintro rfl
  refine (Moves.single known (by simp [kind])).imp (fun _ _ => trivial) (fun _ _ => trivial) ?_
  rintro s' _ - leaves ⟨here, rfl⟩
  refine .ignored here kind ?_
  obtain follows | ⟨-, settled⟩ := leaves
  · rwa [State.tildeAlone, secondKind_congr (s := s) follows.1]
  · exact absurd kind (settled token (by simp [State.consumed_next known]))

/-- A prefix operator is separable with its operand. -/
theorem separable_unary {operator : UnaryOperator} (known : s.peek = some token)
    (entry : token.kind.unaryOperator? = some operator)
    (attached : token.kind = .tilde → s.tildeAlone nesting = false)
    (innerReads : Reads (.expression nesting UnaryOperator.operandPower inner) s.next s₁)
    (head : (Phrase.expression nesting UnaryOperator.operandPower inner).Separable s.next s₁) :
    (Phrase.operand nesting (.unary operator inner token.pos)).Separable s s₁ := by
  rintro rfl
  have clean : token.kind ≠ .error := Kind.ne_error_of_unary entry
  have shorter := innerReads.length_lt (by simp [Phrase.least])
  refine (((head rfl).peek shorter).cons known clean).imp (fun _ _ _ => trivial)
    (fun _ leaves => leaves) ?_
  rintro s' final' - - ⟨here, same, operand⟩
  refine .unary here entry (fun tilde => ?_) operand
  rw [← attached tilde, State.tildeAlone, State.tildeAlone, secondKind_congr same.symm]

/-- An anonymous function is separable with its body. -/
theorem separable_lambda {pos : Position} (opens : s.peekKind = some .leftParen)
    (paramReads : Reads (.parameters params) s s₁)
    (tail : (Phrase.expression nesting lambdaBodyPower body).Separable s₁ s₂) :
    (Phrase.handle nesting pos (.lambda params body pos)).Separable s s₂ := by
  rintro rfl
  have shorter := paramReads.length_lt (by simp [Phrase.least])
  refine (((paramReads.portable trivial).peek shorter).append (tail rfl)
    (fun _ _ _ _ _ _ => trivial) (fun _ _ _ _ => trivial)).imp (fun _ _ => trivial)
    (fun _ leaves => leaves) ?_
  rintro s' final' - - ⟨middle', ⟨same, params⟩, body⟩
  exact .lambda ((peekKind_congr same).trans opens) params body

/-- A transpose is separable in front of anything that is no mark. -/
theorem separable_transpose (known : s.peek = some token) (mark : token.kind.isMark = true) :
    (Phrase.suffix left token (.transpose left s.marks token.pos)).Separable s
      (s.skip Kind.isMark) := by
  refine (moves_transpose known mark).imp (fun _ _ => trivial) (fun other follows => ?_)
    fun _ _ _ _ reads => reads
  obtain same | ends := follows
  · exact fun found inside => s.unmarked_skip found (same.trans inside)
  · exact ends

end

/-- Every phrase that is read in a literal is read in the same way where its element ends. -/
theorem Reads.separable {phrase : Phrase} (reads : Reads phrase s final) :
    phrase.Separable s final := by
  induction reads with
  | expression operandReads operatorsReads head tail =>
    exact separable_expression operandReads operatorsReads head tail
  | stop stops => exact separable_stop stops
  | postfixed known gap entry strong suffixReads _ head tail =>
    exact separable_postfixed known gap entry strong suffixReads head tail
  | infixed known gap entry strong operandReads operatorsReads head tail =>
    exact separable_infixed known gap entry strong operandReads operatorsReads head tail
  | ident known kind => exact fun _ => (moves_ident known kind).anywhere
  | number known kind =>
    exact fun _ => (moves_token known (by simp [kind]) fun s' here => .number here kind).anywhere
  | string known kind =>
    exact fun _ => (moves_token known (by simp [kind]) fun s' here => .string here kind).anywhere
  | lastIndex known kind text inside =>
    exact fun _ => (moves_token known (by simp [kind]) fun s' here =>
      .lastIndex here kind text inside).anywhere
  | colon known kind alone =>
    rintro rfl
    cases alone
  | ignored known kind alone => exact separable_ignored known kind alone
  | unary known entry attached innerReads head =>
    exact separable_unary known entry attached innerReads head
  | atSign known kind _ head =>
    rintro rfl
    refine ((head rfl).cons known (by simp [kind])).imp (fun _ _ _ => trivial)
      (fun _ leaves => leaves) ?_
    rintro s' final' - - ⟨here, handle⟩
    exact .atSign here kind handle
  | parens known kind inner closes =>
    exact fun _ => (moves_parens known kind (inner.portable trivial) closes).anywhere
  | matrix known kind inner => exact fun _ => (moves_matrix known kind (inner.portable rfl)).anywhere
  | cell known kind inner => exact fun _ => (moves_cell known kind (inner.portable rfl)).anywhere
  | lambda opens paramReads _ _ tail => exact separable_lambda opens paramReads tail
  | named known kind =>
    exact fun _ => (moves_token known (by simp [kind]) fun s' here => .named here kind).anywhere
  | call known kind inner => exact (moves_call known kind (inner.portable rfl)).anywhere
  | cellIndex known kind inner => exact (moves_cellIndex known kind (inner.portable rfl)).anywhere
  | member known kind named word => exact (moves_member known kind named word).anywhere
  | dynamic known kind opens inner closes =>
    exact (moves_dynamic known kind opens (inner.portable trivial) closes).anywhere
  | transpose known mark => exact separable_transpose known mark
  | close | rowEnd | comma | element | noArguments | arguments | argument | lastArgument
  | noParameters | parameters | parameter | lastParameter => trivial

end Grammar

end MatlabFront
