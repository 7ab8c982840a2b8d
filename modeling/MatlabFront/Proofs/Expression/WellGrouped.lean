import MatlabFront.Proofs.Expression.Grammar
import MatlabFront.Proofs.Expression.Grouping

/-!
# Accepted expressions are grouped by precedence

While the operators behind an operand are read, three things stay true of the tree so far: it is
grouped as the table says, no operator on its left spine is weaker than the power asked for, and
nothing that is still open on its right spine could take the token that comes next. The next
operator then takes the tree as its left operand, and the same holds of the new tree.
-/

namespace MatlabFront

/-- A power that takes no operator here is larger than that of the operator that comes next. -/
theorem State.Stops.lt {s : State} {nesting : Nesting} {power left : Nat} {token : Token}
    (stops : s.Stops nesting power) (known : s.peek = some token) (gap : s.atGap nesting = false)
    (entry : token.kind.leftPower? = some left) : left < power := by
  obtain open_gap | weaker := stops token known
  · rw [gap] at open_gap
    cases open_gap
  · exact weaker left entry

/-- A kind in the table of postfix operators has the power listed there. -/
theorem Kind.leftPower?_of_postfix {kind : Kind} {operator : PostfixOperator}
    (entry : kind.postfixOperator? = some operator) :
    kind.leftPower? = some operator.leftPower := by
  simp [Kind.leftPower?, entry]

/-- A kind in the table of infix operators has the power listed there. -/
theorem Kind.leftPower?_of_infix {kind : Kind} {operator : InfixOperator}
    (entry : kind.infixOperator? = some operator) :
    kind.leftPower? = some operator.leftPower := by
  simp [Kind.leftPower?, Kind.postfixOperator?_of_infix entry, entry]

namespace Grammar

/-- What holds of a tree whose operators have been read up to a state. -/
structure Settled (nesting : Nesting) (power : Nat) (whole : Expr) (s : State) : Prop where
  grouped : whole.WellGrouped
  behind : whole.StandsBehind power
  /-- Nothing open on the right spine takes what comes next. -/
  closed : ∀ right ∈ whole.rightSpine, s.Stops nesting right

/-- A settled tree can be the left operand of the operator that comes next. -/
theorem Settled.before {nesting : Nesting} {power left : Nat} {whole : Expr} {s : State}
    {token : Token} (settled : Settled nesting power whole s) (known : s.peek = some token)
    (gap : s.atGap nesting = false) (entry : token.kind.leftPower? = some left) :
    whole.StandsBefore left :=
  fun right inside => (settled.closed right inside).lt known gap entry

/-- What is known of the tree of a phrase once it has been read. -/
def Phrase.Settles (s final : State) : Phrase → Prop
  | .expression nesting power whole =>
    Settled nesting power whole final ∧ final.Stops nesting power
  | .operators nesting power left whole => Settled nesting power left s →
    Settled nesting power whole final ∧ final.Stops nesting power
  | .operand nesting whole | .handle nesting _ whole =>
    whole.leftSpine = [] ∧ ∀ power, Settled nesting power whole final
  | .elements _ _ row rows => ∀ element ∈ row ++ rows.flatten, element.WellGrouped
  | .suffix left token whole => ∀ operator, token.kind.postfixOperator? = some operator →
    left.WellGrouped → left.StandsBefore operator.leftPower →
      whole.WellGrouped ∧ whole.leftSpine = operator.leftPower :: left.leftSpine ∧
        whole.rightSpine = []
  | .arguments _ args | .argumentsFrom _ args => ∀ arg ∈ args, arg.WellGrouped
  | .parameters _ | .parametersFrom _ => True

/-- A tree whose spines are empty is settled as soon as it is grouped. -/
theorem Settled.of_closed {nesting : Nesting} {power : Nat} {whole : Expr} {s : State}
    (grouped : whole.WellGrouped) (left : whole.leftSpine = []) (right : whole.rightSpine = []) :
    Settled nesting power whole s :=
  ⟨grouped, Expr.standsBehind_of_nil left power, by simp [right]⟩

/-- A name, a number or any other tree without parts is settled. -/
theorem settles_atom {nesting : Nesting} {whole : Expr} {s : State}
    (parts : whole.parts = []) (grouped : whole.Grouped) (left : whole.leftSpine = [])
    (right : whole.rightSpine = []) :
    whole.leftSpine = [] ∧ ∀ power, Settled nesting power whole s :=
  ⟨left, fun _ => .of_closed (.node grouped (by simp [parts])) left right⟩

/-- Every phrase that is read is settled. -/
theorem Reads.settles {phrase : Phrase} {s final : State} (reads : Reads phrase s final) :
    phrase.Settles s final := by
  induction reads with
  | expression _ _ head tail => exact tail (head.2 _)
  | stop stops => exact fun settled => ⟨settled, stops⟩
  | @postfixed nesting power left middle whole token operator s s₁ s₂ known gap entry strong _ _
      head tail =>
    intro settled
    have before := settled.before known gap (Kind.leftPower?_of_postfix entry)
    obtain ⟨grouped, spine, closed⟩ := head operator entry settled.grouped before
    refine tail ⟨grouped, ?_, by simp [closed]⟩
    intro left inside
    rw [spine] at inside
    cases inside with
    | head => exact strong
    | tail _ inside => exact settled.behind left inside
  | @infixed nesting power left right whole token operator s s₁ s₂ known gap entry strong _ _
      head tail =>
    intro settled
    obtain ⟨operand, stops⟩ := head
    have before := settled.before known gap (Kind.leftPower?_of_infix entry)
    refine tail ⟨settled.grouped.infixNode entry operand.grouped before operand.behind,
      Expr.standsBehind_infixNode entry strong settled.behind, ?_⟩
    rw [Expr.rightSpine_infixNode entry]
    exact List.forall_mem_cons.mpr ⟨stops, operand.closed⟩
  | ident | number | string | lastIndex | colon | ignored =>
    exact settles_atom rfl trivial rfl rfl
  | unary _ _ _ _ head =>
    obtain ⟨operand, stops⟩ := head
    refine ⟨rfl, fun power => ⟨.node operand.behind ?_, Expr.standsBehind_of_nil rfl power, ?_⟩⟩
    · simpa [Expr.parts] using operand.grouped
    · exact List.forall_mem_cons.mpr ⟨stops, operand.closed⟩
  | atSign _ _ _ head => exact head
  | parens _ _ _ _ head =>
    refine ⟨rfl, fun power => .of_closed (.node trivial ?_) rfl rfl⟩
    simpa [Expr.parts] using head.1.grouped
  | matrix _ _ _ head | cell _ _ _ head =>
    refine ⟨rfl, fun power => .of_closed (.node trivial ?_) rfl rfl⟩
    simp only [Expr.parts, flatten_rowsOf]
    exact head
  | lambda _ _ _ _ tail =>
    obtain ⟨body, stops⟩ := tail
    refine ⟨rfl, fun power => ⟨.node body.behind ?_, Expr.standsBehind_of_nil rfl power, ?_⟩⟩
    · simpa [Expr.parts] using body.grouped
    · exact List.forall_mem_cons.mpr ⟨stops, body.closed⟩
  | named => exact settles_atom rfl trivial rfl rfl
  | close => simp [Phrase.Settles]
  | rowEnd _ _ _ _ head =>
    simp only [Phrase.Settles, List.nil_append, flatten_rowsOf]
    exact head
  | comma _ _ _ head => exact head
  | element _ _ _ _ _ head tail => exact List.forall_mem_cons.mpr ⟨head.1.grouped, tail⟩
  | @call left args token s s₁ _ kind _ head =>
    intro operator entry grouped before
    obtain rfl : PostfixOperator.call = operator := by
      simpa [kind, Kind.postfixOperator?] using entry
    exact ⟨grouped.apply before head, Expr.spines_apply left args⟩
  | cellIndex _ kind _ head =>
    intro operator entry grouped before
    obtain rfl : PostfixOperator.cellIndex = operator := by
      simpa [kind, Kind.postfixOperator?] using entry
    exact ⟨.node before (List.forall_mem_cons.mpr ⟨grouped, head⟩), rfl, rfl⟩
  | member _ kind =>
    intro operator entry grouped before
    obtain rfl : PostfixOperator.field = operator := by
      simpa [kind, Kind.postfixOperator?] using entry
    exact ⟨.node before (by simpa [Expr.parts, Field.parts] using grouped), rfl, rfl⟩
  | dynamic _ kind _ _ _ head =>
    intro operator entry grouped before
    obtain rfl : PostfixOperator.field = operator := by
      simpa [kind, Kind.postfixOperator?] using entry
    refine ⟨.node before ?_, rfl, rfl⟩
    simpa [Expr.parts, Field.parts] using ⟨grouped, head.1.grouped⟩
  | transpose _ mark =>
    intro operator entry grouped before
    obtain rfl : PostfixOperator.transpose = operator :=
      Option.some.inj ((Kind.postfix_of_isMark mark).symm.trans entry)
    exact ⟨.node before (by simpa [Expr.parts] using grouped), rfl, rfl⟩
  | noArguments => simp [Phrase.Settles]
  | arguments _ _ head => exact head
  | argument _ _ _ head tail => exact List.forall_mem_cons.mpr ⟨head.1.grouped, tail⟩
  | lastArgument _ _ _ head => simpa [Phrase.Settles] using head.1.grouped
  | noParameters | parameters | parameter | lastParameter => trivial

/-- Every expression that is read is grouped by precedence. -/
theorem Reads.wellGrouped {nesting : Nesting} {power : Nat} {whole : Expr} {s final : State}
    (reads : Reads (.expression nesting power whole) s final) : whole.WellGrouped :=
  reads.settles.1.grouped

end Grammar

end MatlabFront
