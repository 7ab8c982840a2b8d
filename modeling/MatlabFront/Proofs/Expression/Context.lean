import MatlabFront.Proofs.Expression.Complete
import MatlabFront.Proofs.Parser.Moves

/-!
# What is read does not depend on its place

The tokens of an expression are read in the same way wherever they stand. Outside of all brackets
the only thing that matters is that no operator follows; inside of them it is the next token, and in
a literal also the gaps around it. So a run of tokens that is once an expression is one in any
program.
-/

namespace MatlabFront

/-- A gap in front of the next token is seen in the tokens around it. -/
theorem Parser.gapBeginsElement_congr {consumed consumed' rest rest' : List Token}
    (last : consumed.head? = consumed'.head?) (next : rest.head? = rest'.head?)
    (sign : ∀ token ∈ rest.head?, token.kind = .plus ∨ token.kind = .minus →
      rest.tail.head? = rest'.tail.head?) :
    gapBeginsElement consumed rest = gapBeginsElement consumed' rest' := by
  cases consumed with
  | nil =>
    obtain rfl : consumed' = [] := List.head?_eq_none_iff.mp last.symm
    rfl
  | cons token consumed =>
    obtain ⟨consumed', rfl⟩ := List.head?_eq_some_iff.mp last.symm
    cases rest with
    | nil =>
      obtain rfl : rest' = [] := List.head?_eq_none_iff.mp next.symm
      rfl
    | cons first later =>
      obtain ⟨later', rfl⟩ := List.head?_eq_some_iff.mp next.symm
      have second : first.kind = .plus ∨ first.kind = .minus → later.head? = later'.head? :=
        sign first rfl
      unfold gapBeginsElement
      dsimp only
      congr 1
      split
      · rfl
      · rfl
      · next kind =>
        cases later <;> cases later' <;> simp_all
      · next kind =>
        cases later <;> cases later' <;> simp_all
      · rfl

/-- A kind that closes a bracket is no error. -/
theorem Kind.ne_error_of_closes {kind : Kind} (closes : kind.closesBracket = true) :
    kind ≠ .error := by
  rintro rfl
  cases closes

/-- An operator between two operands is no error. -/
theorem Kind.ne_error_of_infix {kind : Kind} {operator : InfixOperator}
    (known : kind.infixOperator? = some operator) : kind ≠ .error := by
  rintro rfl
  cases known

/-- An operator in front of its operand is no error. -/
theorem Kind.ne_error_of_unary {kind : Kind} {operator : UnaryOperator}
    (known : kind.unaryOperator? = some operator) : kind ≠ .error := by
  rintro rfl
  cases known

/-- An operator behind its operand is no sign. -/
theorem Kind.not_sign_of_postfix {kind : Kind} {operator : PostfixOperator}
    (known : kind.postfixOperator? = some operator) : ¬(kind = .plus ∨ kind = .minus) := by
  rintro (rfl | rfl) <;> cases known

/-- A parameter is declared by a token that is no error. -/
theorem State.peek_of_param {s : State} {param : Param} (declares : s.param? = some param) :
    ∃ token, s.peek = some token ∧ token.kind ≠ .error := by
  obtain ⟨token, known, ⟨kind, -⟩ | ⟨kind, -⟩⟩ := State.token_of_param declares <;>
    exact ⟨token, known, by simp [kind]⟩

/-- The same token declares the same parameter. -/
theorem State.param_congr {s s' : State} {token : Token} {param : Param}
    (known : s.peek = some token) (here : s'.peek = some token)
    (declares : s.param? = some param) : s'.param? = some param := by
  rw [← declares, State.param?, State.param?, known, here]

/-- Behind the transpose marks that come next there is none. -/
theorem State.unmarked_skip (s : State) :
    ∀ found ∈ (s.skip Kind.isMark).rest.head?, found.kind.isMark = false := by
  intro found inside
  have stop := List.head?_dropWhile_not (·.kind.isMark) s.rest
  have here : (s.rest.dropWhile (·.kind.isMark)).head? = some found := inside
  simpa [here] using stop

/-- What may stand in one place and what in another behind something that is read in a bracket. -/
def Nesting.Follows : Nesting → List Token → List Token → Prop
  | .outside, rest, other => rest.head? = other.head? ∨ Operatorless rest ∧ Operatorless other
  | .group, rest, other => rest.head? = other.head?
  | .elements, rest, other => rest.head? = other.head? ∧
    ∀ token ∈ rest.head?, token.kind = .plus ∨ token.kind = .minus →
      rest.tail.head? = other.tail.head?

namespace Nesting

/-- What may follow in a bracket may follow outside of it. -/
theorem Follows.outside {nesting : Nesting} {rest other : List Token}
    (follows : nesting.Follows rest other) : Nesting.outside.Follows rest other := by
  cases nesting with
  | outside => exact follows
  | group => exact .inl follows
  | elements => exact .inl follows.1

/-- The same run may stand in front. -/
theorem Follows.append {nesting : Nesting} {rest other : List Token}
    (follows : nesting.Follows rest other) (run : List Token) :
    nesting.Follows (run ++ rest) (run ++ other) := by
  cases run with
  | nil => exact follows
  | cons first run =>
    cases nesting with
    | outside => exact .inl rfl
    | group => rfl
    | elements =>
      refine ⟨rfl, fun _ _ _ => ?_⟩
      cases run with
      | nil => exact follows.1
      | cons second run => rfl

/-- Anything may follow behind two tokens, and behind a closing bracket. -/
theorem follows_append {nesting : Nesting} {first : Token} {run rest other : List Token}
    (closes : run = [] → first.kind.closesBracket = true) :
    nesting.Follows (first :: run ++ rest) (first :: run ++ other) := by
  cases nesting with
  | outside => exact .inl rfl
  | group => rfl
  | elements =>
    refine ⟨rfl, ?_⟩
    rintro token ⟨⟩ sign
    cases run with
    | nil =>
      have bracket := closes rfl
      rcases sign with kind | kind <;> simp [kind, Kind.closesBracket] at bracket
    | cons second run => rfl

end Nesting

/-- The same operators stop in both places. -/
theorem State.Stops.congr {s s' : State} {nesting : Nesting} {power : Nat}
    (stops : s.Stops nesting power)
    (last : nesting = .elements → s.consumed.head? = s'.consumed.head?)
    (follows : nesting.Follows s.rest s'.rest) : s'.Stops nesting power := by
  intro token known
  have here : s'.rest.head? = some token := known
  cases nesting with
  | outside =>
    obtain same | ⟨-, plain⟩ := follows
    · exact stops token (same.trans here)
    · exact .inr (plain.weaker power token here)
  | group => exact stops token (Eq.trans follows here)
  | elements =>
    have gap : s.atGap .elements = s'.atGap .elements := by
      simp only [State.atGap, Parser.gapBeginsElement_congr (last rfl) follows.1 follows.2]
    rw [← gap]
    exact stops token (follows.1.trans here)

namespace Grammar

/-- How the places differ in front of a phrase. -/
def Phrase.Starts (s s' : State) : Phrase → Prop
  | .expression nesting _ _ | .operators nesting _ _ _ | .operand nesting _
  | .handle nesting _ _ => nesting = .elements → s.consumed.head? = s'.consumed.head?
  | .elements .. => s.consumed.head? = s'.consumed.head?
  | _ => True

/-- A phrase that ends with a bracket ends with a closing one. -/
def Phrase.Proper : Phrase → Prop
  | .elements close _ _ _ | .arguments close _ | .argumentsFrom close _ =>
    close.closesBracket = true
  | _ => True

/-- How the places differ behind a phrase. -/
def Phrase.Follows (rest other : List Token) : Phrase → Prop
  | .expression nesting _ _ | .operators nesting _ _ _ | .operand nesting _
  | .handle nesting _ _ => nesting.Follows rest other
  | .suffix .. => Nesting.outside.Follows rest other
  | _ => True

/-- The tokens of a phrase hold no error and are read in the same way in another place. -/
def Phrase.Portable (s final : State) (phrase : Phrase) : Prop :=
  Moves s final (phrase.Starts s ·) (phrase.Follows final.rest ·) (Reads phrase)

/-- A phrase takes at least one token unless it is an empty run of operators. -/
theorem Reads.length_lt {phrase : Phrase} {s final : State} (reads : Reads phrase s final)
    (filled : 0 < phrase.least) : final.rest.length < s.rest.length := by
  have shrinks := reads.length_le
  omega

/-- What is left of a literal is its closing bracket, or more than one token. -/
theorem Reads.elements_run {close : Kind} {afterElement : Bool} {row : List Expr}
    {rows : List (List Expr)} {s final : State} {first : Token} {run : List Token}
    (reads : Reads (.elements close afterElement row rows) s final)
    (advances : s.Advances (first :: run) final) (single : run = []) : first.kind = close := by
  subst single
  have one := advances.length
  have here : s.peekKind = some first.kind := by simp [State.peekKind, advances.rest]
  cases reads with
  | close known => exact Option.some.inj (here.symm.trans known)
  | rowEnd known _ _ later | comma known _ later =>
    have first := State.length_next_of_peekKind known
    have rest := later.length_le
    simp only [Phrase.least, List.length_singleton] at *
    omega
  | element _ _ _ head tail =>
    have first := head.length_le
    have rest := tail.length_le
    simp only [Phrase.least, List.length_singleton] at *
    omega

/-- A phrase of one token is read wherever the token stands. -/
theorem portable_token {phrase : Phrase} {s : State} {token : Token} (known : s.peek = some token)
    (clean : token.kind ≠ .error)
    (reads : ∀ s' : State, s'.peek = some token → phrase.Follows s.next.rest s'.next.rest →
      Reads phrase s' s'.next) : phrase.Portable s s.next := by
  refine (Moves.single known clean).imp (fun _ _ => trivial) (fun _ _ => trivial) ?_
  rintro s' _ - follows ⟨here, rfl⟩
  exact reads s' here follows

/-- The kind of the token behind the next one is known from that token. -/
theorem secondKind_congr {s s' : State} (same : s.next.rest.head? = s'.next.rest.head?) :
    s'.secondKind = s.secondKind := (congrArg (Option.map Token.kind) same).symm

/-- The kind of the next token is known from that token. -/
theorem peekKind_congr {s s' : State} (same : s'.peek = s.peek) : s'.peekKind = s.peekKind :=
  congrArg (Option.map Token.kind) same

/-- The same gap stands in front of the same token. -/
theorem atGap_congr {nesting : Nesting} {s s' : State} {token : Token}
    (last : nesting = .elements → s.consumed.head? = s'.consumed.head?)
    (known : s.peek = some token) (here : s'.peek = some token)
    (sign : token.kind = .plus ∨ token.kind = .minus →
      s.next.rest.head? = s'.next.rest.head?) :
    s'.atGap nesting = s.atGap nesting := by
  cases nesting with
  | outside | group => rfl
  | elements =>
    have same : s.rest.head? = s'.rest.head? := Eq.trans known here.symm
    have signs : ∀ found ∈ s.rest.head?, found.kind = .plus ∨ found.kind = .minus →
        s.rest.tail.head? = s'.rest.tail.head? := by
      intro found inside
      obtain rfl : token = found := Option.some.inj (known.symm.trans inside)
      exact sign
    simp only [State.atGap, Parser.gapBeginsElement_congr (last rfl) same signs]

/-- The marks of a transpose are read wherever they stand, with no mark behind them. -/
theorem moves_transpose {left : Expr} {s : State} {token : Token} (known : s.peek = some token)
    (mark : token.kind.isMark = true) :
    Moves s (s.skip Kind.isMark) (fun _ => True)
      (fun other => ∀ found ∈ other.head?, found.kind.isMark = false)
      (Reads (.suffix left token (.transpose left s.marks token.pos))) := by
  have first : s.rest = token :: s.next.rest := State.rest_of_peek known
  have all : ∀ found ∈ s.rest.takeWhile (·.kind.isMark), found.kind.isMark = true :=
    List.all_eq_true.mp List.all_takeWhile
  refine ⟨_, .skip s Kind.isMark, fun found inside error => ?_, fun s' other rest _ ends => ?_⟩
  · have marked := all found inside
    rw [error] at marked
    cases marked
  · -- The marks end in both places where the run does, so they are the same text.
    obtain ⟨run, -⟩ := State.skip_of_rest rest all ends
    have marks : s'.marks = s.marks := by rw [State.marks, State.marks, run]
    have here : s'.peek = some token := by simp [State.peek, rest, first, mark]
    refine ⟨s'.skip Kind.isMark, marks ▸ .transpose here mark, ?_⟩
    have advances := State.Advances.skip s' Kind.isMark
    rwa [run] at advances

/-- A transpose is read in front of the same token, or of none that is an operator. -/
theorem portable_transpose {left : Expr} {s : State} {token : Token} (known : s.peek = some token)
    (mark : token.kind.isMark = true) :
    (Phrase.suffix left token (.transpose left s.marks token.pos)).Portable s
      (s.skip Kind.isMark) := by
  refine (moves_transpose known mark).imp (fun _ _ => trivial) (fun other follows found inside => ?_)
    fun _ _ _ _ reads => reads
  obtain same | ⟨-, plain⟩ := follows
  · exact s.unmarked_skip found (same.trans inside)
  · cases marked : found.kind.isMark with
    | false => rfl
    | true =>
      have entry := plain found inside
      simp [Kind.leftPower?, Kind.postfix_of_isMark marked] at entry

section Closed

variable {nesting : Nesting} {left inner : Expr} {args row : List Expr} {rows : List (List Expr)}
  {token name : Token} {s s₁ : State}

/-- A phrase of one token for which what follows does not matter is read wherever it stands. -/
theorem moves_token {phrase : Phrase} (known : s.peek = some token) (clean : token.kind ≠ .error)
    (reads : ∀ s' : State, s'.peek = some token → Reads phrase s' s'.next) :
    Moves s s.next (fun _ => True) (fun _ => True) (Reads phrase) := by
  refine (Moves.single known clean).imp (fun _ _ => trivial) (fun _ _ => trivial) ?_
  rintro s' _ - - ⟨here, rfl⟩
  exact reads s' here

/-- A name is read wherever it stands. -/
theorem moves_ident (known : s.peek = some token) (kind : token.kind = .ident) :
    Moves s (s.next.note token.text) (fun _ => True) (fun _ => True)
      (Reads (.operand nesting (.ident (Parser.declared token)))) := by
  refine ⟨[token], .note (.next known) _, by simp [kind], fun s' other rest _ _ => ?_⟩
  obtain ⟨here, -⟩ := State.peek_of_rest rest
  exact ⟨_, .ident here kind, .note (.next here) _⟩

/-- What stands in parentheses is read wherever they stand. -/
theorem moves_parens (known : s.peek = some token) (kind : token.kind = .leftParen)
    (moves : (Phrase.expression .group 0 inner).Portable s.next s₁)
    (closes : s₁.peekKind = some .rightParen) :
    Moves s s₁.next (fun _ => True) (fun _ => True)
      (Reads (.operand nesting (.parens inner token.pos))) := by
  obtain ⟨close, found, last⟩ := State.peek_of_peekKind closes
  refine ((moves.concat found (by simp [last]) fun _ => found).cons known (by simp [kind])).imp
    (fun s' _ _ inside => by cases inside) (fun _ _ => trivial) ?_
  rintro s' _ - - ⟨here, middle', reads, there, rfl⟩
  exact .parens here kind reads (last ▸ State.peekKind_of_peek there)

/-- A matrix is read wherever it stands. -/
theorem moves_matrix (known : s.peek = some token) (kind : token.kind = .leftBracket)
    (moves : (Phrase.elements .rightBracket false row rows).Portable s.next s₁) :
    Moves s s₁ (fun _ => True) (fun _ => True)
      (Reads (.operand nesting (.matrix (Parser.rowsOf row rows) token.pos))) := by
  refine (moves.cons known (by simp [kind])).imp
    (fun s' _ here => State.head_consumed_next known here) (fun _ _ => trivial) ?_
  rintro s' final' - - ⟨here, elements⟩
  exact .matrix here kind elements

/-- A cell literal is read wherever it stands. -/
theorem moves_cell (known : s.peek = some token) (kind : token.kind = .leftBrace)
    (moves : (Phrase.elements .rightBrace false row rows).Portable s.next s₁) :
    Moves s s₁ (fun _ => True) (fun _ => True)
      (Reads (.operand nesting (.cell (Parser.rowsOf row rows) token.pos))) := by
  refine (moves.cons known (by simp [kind])).imp
    (fun s' _ here => State.head_consumed_next known here) (fun _ _ => trivial) ?_
  rintro s' final' - - ⟨here, elements⟩
  exact .cell here kind elements

/-- The arguments of a call are read wherever they stand. -/
theorem moves_call (known : s.peek = some token) (kind : token.kind = .leftParen)
    (moves : (Phrase.arguments .rightParen args).Portable s.next s₁) :
    Moves s s₁ (fun _ => True) (fun _ => True) (Reads (.suffix left token (left.apply args))) := by
  refine (moves.cons known (by simp [kind])).imp (fun _ _ _ => trivial) (fun _ _ => trivial) ?_
  rintro s' final' - - ⟨here, arguments⟩
  exact .call here kind arguments

/-- The subscripts in braces are read wherever they stand. -/
theorem moves_cellIndex (known : s.peek = some token) (kind : token.kind = .leftBrace)
    (moves : (Phrase.arguments .rightBrace args).Portable s.next s₁) :
    Moves s s₁ (fun _ => True) (fun _ => True)
      (Reads (.suffix left token (.cellIndex left args left.pos))) := by
  refine (moves.cons known (by simp [kind])).imp (fun _ _ _ => trivial) (fun _ _ => trivial) ?_
  rintro s' final' - - ⟨here, arguments⟩
  exact .cellIndex here kind arguments

/-- A field is read wherever it stands. -/
theorem moves_member (known : s.peek = some token) (kind : token.kind = .dot)
    (named : s.next.peek = some name) (word : name.kind = .ident) :
    Moves s s.next.next (fun _ => True) (fun _ => True)
      (Reads (.suffix left token (.member left (.named (Parser.declared name)) token.pos))) := by
  refine ((Moves.single named (by simp [word])).cons known (by simp [kind])).imp
    (fun _ _ _ => trivial) (fun _ _ => trivial) ?_
  rintro s' _ - - ⟨here, there, rfl⟩
  exact .member here kind there word

/-- A field that an expression names is read wherever it stands. -/
theorem moves_dynamic (known : s.peek = some token) (kind : token.kind = .dot)
    (opens : s.next.peekKind = some .leftParen)
    (moves : (Phrase.expression .group 0 inner).Portable s.next.next s₁)
    (closes : s₁.peekKind = some .rightParen) :
    Moves s s₁.next (fun _ => True) (fun _ => True)
      (Reads (.suffix left token (.member left (.dynamic inner) token.pos))) := by
  obtain ⟨bracket, found, bracketKind⟩ := State.peek_of_peekKind opens
  obtain ⟨close, closing, closeKind⟩ := State.peek_of_peekKind closes
  have inside := moves.concat closing (by simp [closeKind]) fun _ => closing
  refine ((inside.cons found (by simp [bracketKind])).cons known (by simp [kind])).imp
    (fun _ _ _ _ group => by cases group) (fun _ _ => trivial) ?_
  rintro s' _ - - ⟨here, there, middle', reads, ending, rfl⟩
  exact .dynamic here kind (bracketKind ▸ State.peekKind_of_peek there) reads
    (closeKind ▸ State.peekKind_of_peek ending)

end Closed

section Parts

variable {nesting : Nesting} {power : Nat} {left middle right inner whole first last body : Expr}
  {args row : List Expr} {rows : List (List Expr)} {param : Param} {params : List Param}
  {token : Token} {close kind : Kind} {afterElement : Bool} {pos : Position} {s s₁ s₂ : State}

/-- An operand and the operators behind it are an expression in another place too. -/
theorem portable_expression (head : (Phrase.operand nesting left).Portable s s₁)
    (tail : (Phrase.operators nesting power left whole).Portable s₁ s₂) :
    (Phrase.expression nesting power whole).Portable s s₂ := by
  refine (head.append tail ?_ ?_).imp (fun _ starts => starts) (fun _ follows => follows) ?_
  · exact fun s' middle' run one two starts inside => one.head_consumed two fun _ => starts inside
  · intro run other advances follows
    rw [advances.rest]
    exact Nesting.Follows.append follows run
  · rintro s' final' - - ⟨middle', operand, operators⟩
    exact .expression operand operators

/-- The operators of an expression stop in front of the same token, or of none that is one. -/
theorem portable_stop (stops : s.Stops nesting power) :
    (Phrase.operators nesting power left left).Portable s s := by
  refine ⟨[], .refl s, by simp, fun s' other rest starts follows => ⟨s', .stop ?_, .refl s'⟩⟩
  obtain rfl : s'.rest = other := rest
  exact stops.congr starts follows

/-- An operator behind its operand is read in another place, with the operators behind it. -/
theorem portable_postfixed {operator : PostfixOperator} (known : s.peek = some token)
    (gap : s.atGap nesting = false) (entry : token.kind.postfixOperator? = some operator)
    (strong : power ≤ operator.leftPower) (shorter : s₁.rest.length < s.rest.length)
    (head : (Phrase.suffix left token middle).Portable s s₁)
    (tail : (Phrase.operators nesting power middle whole).Portable s₁ s₂) :
    (Phrase.operators nesting power left whole).Portable s s₂ := by
  refine ((head.peek shorter).append tail ?_ ?_).imp (fun _ _ => trivial)
    (fun _ follows => follows) ?_
  · exact fun s' middle' run one two _ _ => one.same_last two shorter
  · intro run other advances follows
    rw [advances.rest]
    exact (Nesting.Follows.outside follows).append run
  · rintro s' final' starts - ⟨middle', ⟨same, suffix⟩, operators⟩
    have here : s'.peek = some token := same.trans known
    have gap' : s'.atGap nesting = false := by
      rw [atGap_congr starts known here, gap]
      exact fun sign => absurd sign (Kind.not_sign_of_postfix entry)
    exact .postfixed here gap' entry strong suffix operators

/-- An operator between two operands is read in another place, with the operators behind it. The gap
in front of a sign is the same there, since the token behind the sign is. -/
theorem portable_infixed {operator : InfixOperator} (known : s.peek = some token)
    (gap : s.atGap nesting = false) (entry : token.kind.infixOperator? = some operator)
    (strong : power ≤ operator.leftPower) (shorter : s₁.rest.length < s.next.rest.length)
    (head : (Phrase.expression nesting operator.rightPower right).Portable s.next s₁)
    (tail : (Phrase.operators nesting power
      (.infixNode operator left right token.pos) whole).Portable s₁ s₂) :
    (Phrase.operators nesting power left whole).Portable s s₂ := by
  have clean : token.kind ≠ .error := Kind.ne_error_of_infix entry
  have passed := State.length_next known
  refine (((head.peek shorter).cons known clean).append tail ?_ ?_).imp
    (fun s' _ here _ => State.head_consumed_next known here) (fun _ follows => follows) ?_
  · exact fun s' middle' run one two _ _ => one.same_last two (by omega)
  · intro run other advances follows
    rw [advances.rest]
    exact Nesting.Follows.append follows run
  · rintro s' final' starts - ⟨middle', ⟨here, same, operand⟩, operators⟩
    have gap' : s'.atGap nesting = false := by
      rw [atGap_congr starts known here fun _ => same.symm, gap]
    exact .infixed here gap' entry strong operand operators

/-- A bare colon ends what stands in its group in another place too. -/
theorem portable_colon (known : s.peek = some token) (kind : token.kind = .colon)
    (alone : s.colonAlone nesting = true) :
    (Phrase.operand nesting (.colon token.pos)).Portable s s.next := by
  refine portable_token known (by simp [kind]) fun s' here follows => .colon here kind ?_
  cases nesting with
  | outside | elements => cases alone
  | group =>
    rw [State.colonAlone, secondKind_congr (s := s) follows]
    exact alone

/-- A tilde alone in its element is alone in another place too. -/
theorem portable_ignored (known : s.peek = some token) (kind : token.kind = .tilde)
    (alone : s.tildeAlone nesting = true) :
    (Phrase.operand nesting (.ident ⟨"~", token.pos⟩)).Portable s s.next := by
  refine portable_token known (by simp [kind]) fun s' here follows => .ignored here kind ?_
  cases nesting with
  | outside | group => cases alone
  | elements =>
    rw [State.tildeAlone, secondKind_congr (s := s) follows.1]
    exact alone

/-- An operator in front of its operand is read in another place. A tilde is alone in neither, since
the token behind it is the same. -/
theorem portable_unary {operator : UnaryOperator} (known : s.peek = some token)
    (entry : token.kind.unaryOperator? = some operator)
    (attached : token.kind = .tilde → s.tildeAlone nesting = false)
    (shorter : s₁.rest.length < s.next.rest.length)
    (head : (Phrase.expression nesting UnaryOperator.operandPower inner).Portable s.next s₁) :
    (Phrase.operand nesting (.unary operator inner token.pos)).Portable s s₁ := by
  refine ((head.peek shorter).cons known (Kind.ne_error_of_unary entry)).imp
    (fun s' _ here _ => State.head_consumed_next known here) (fun _ follows => follows) ?_
  rintro s' final' - - ⟨here, same, operand⟩
  refine .unary here entry (fun tilde => ?_) operand
  rw [← attached tilde]
  cases nesting with
  | outside | group => rfl
  | elements =>
    have second : s'.secondKind = s.secondKind := secondKind_congr same.symm
    simp only [State.tildeAlone, second]

/-- A handle is read in another place. -/
theorem portable_atSign (known : s.peek = some token) (kind : token.kind = .atSign)
    (head : (Phrase.handle nesting token.pos whole).Portable s.next s₁) :
    (Phrase.operand nesting whole).Portable s s₁ := by
  refine (head.cons known (by simp [kind])).imp
    (fun s' _ here _ => State.head_consumed_next known here) (fun _ follows => follows) ?_
  rintro s' final' - - ⟨here, handle⟩
  exact .atSign here kind handle

/-- An anonymous function is read in another place. -/
theorem portable_lambda (opens : s.peekKind = some .leftParen)
    (shorter : s₁.rest.length < s.rest.length) (head : (Phrase.parameters params).Portable s s₁)
    (tail : (Phrase.expression nesting lambdaBodyPower body).Portable s₁ s₂) :
    (Phrase.handle nesting pos (.lambda params body pos)).Portable s s₂ := by
  refine ((head.peek shorter).append tail ?_ ?_).imp (fun _ _ => trivial)
    (fun _ follows => follows) ?_
  · exact fun s' middle' run one two _ _ => one.same_last two shorter
  · exact fun _ _ _ _ => trivial
  · rintro s' final' - - ⟨middle', ⟨same, params⟩, body⟩
    exact .lambda ((peekKind_congr same).trans opens) params body

/-- The end of a literal is read in another place. -/
theorem portable_close (known : s.peekKind = some close) (closes : close.closesBracket = true) :
    (Phrase.elements close afterElement [] []).Portable s s.next := by
  obtain ⟨token, found, rfl⟩ := State.peek_of_peekKind known
  exact portable_token found (Kind.ne_error_of_closes closes) fun s' here _ =>
    .close (State.peekKind_of_peek here)

/-- The end of a row is read in another place, with the rows behind it. -/
theorem portable_rowEnd (known : s.peekKind = some kind) (differs : kind ≠ close)
    (breaks : kind = .semicolon ∨ kind = .newline)
    (head : (Phrase.elements close false row rows).Portable s.next s₁) :
    (Phrase.elements close afterElement [] (Parser.rowsOf row rows)).Portable s s₁ := by
  obtain ⟨token, found, rfl⟩ := State.peek_of_peekKind known
  have clean : token.kind ≠ .error := by
    rcases breaks with kind | kind <;> simp [kind]
  refine (head.cons found clean).imp
    (fun s' _ here => State.head_consumed_next found here) (fun _ _ => trivial) ?_
  rintro s' final' - - ⟨here, elements⟩
  exact .rowEnd (State.peekKind_of_peek here) differs breaks elements

/-- A comma behind an element is read in another place, with the elements behind it. -/
theorem portable_comma (known : s.peekKind = some .comma) (differs : .comma ≠ close)
    (head : (Phrase.elements close false row rows).Portable s.next s₁) :
    (Phrase.elements close true row rows).Portable s s₁ := by
  obtain ⟨token, found, kind⟩ := State.peek_of_peekKind known
  refine (head.cons found (by simp [kind])).imp
    (fun s' _ here => State.head_consumed_next found here) (fun _ _ => trivial) ?_
  rintro s' final' - - ⟨here, elements⟩
  exact .comma (kind ▸ State.peekKind_of_peek here) differs elements

/-- An element is read in another place, with the elements behind it. More than one token behind it is
the same there, or the closing bracket is. -/
theorem portable_element (known : s.peekKind = some kind) (differs : kind ≠ close)
    (plain : kind.isSeparator = false) (closes : close.closesBracket = true)
    (shorter : s₁.rest.length < s.rest.length) (rest : Reads (.elements close true row rows) s₁ s₂)
    (head : (Phrase.expression .elements 0 first).Portable s s₁)
    (tail : (Phrase.elements close true row rows).Portable s₁ s₂) :
    (Phrase.elements close afterElement (first :: row) rows).Portable s s₂ := by
  refine ((head.peek shorter).append tail ?_ ?_).imp
    (fun _ starts _ => starts) (fun _ _ => trivial) ?_
  · exact fun s' middle' run one two _ => one.same_last two shorter
  · intro run other advances _
    rw [advances.rest]
    obtain ⟨token, more, rfl⟩ := List.exists_cons_of_ne_nil
      (advances.ne_nil (rest.length_lt (by simp [Phrase.least])))
    change Nesting.elements.Follows (token :: more ++ s₂.rest) (token :: more ++ other)
    refine Nesting.follows_append fun single => ?_
    rw [rest.elements_run advances single]
    exact closes
  · rintro s' final' - - ⟨middle', ⟨same, reads⟩, elements⟩
    exact .element ((peekKind_congr same).trans known) differs plain reads elements

/-- No arguments are read in another place. -/
theorem portable_noArguments (known : s.peekKind = some close)
    (closes : close.closesBracket = true) : (Phrase.arguments close []).Portable s s.next := by
  obtain ⟨token, found, rfl⟩ := State.peek_of_peekKind known
  exact portable_token found (Kind.ne_error_of_closes closes) fun s' here _ =>
    .noArguments (State.peekKind_of_peek here)

/-- Arguments are read in another place. -/
theorem portable_arguments (differs : s.peekKind ≠ some close)
    (shorter : s₁.rest.length < s.rest.length)
    (head : (Phrase.argumentsFrom close args).Portable s s₁) :
    (Phrase.arguments close args).Portable s s₁ := by
  refine (head.peek shorter).imp (fun _ _ => trivial) (fun _ _ => trivial) ?_
  rintro s' final' - - ⟨same, reads⟩
  exact .arguments (peekKind_congr same ▸ differs) reads

/-- An argument is read in another place, with the arguments behind it. -/
theorem portable_argument (more : s₁.peekKind = some .comma)
    (head : (Phrase.expression .group 0 first).Portable s s₁)
    (tail : (Phrase.argumentsFrom close args).Portable s₁.next s₂) :
    (Phrase.argumentsFrom close (first :: args)).Portable s s₂ := by
  obtain ⟨comma, found, kind⟩ := State.peek_of_peekKind more
  refine ((head.concat found (by simp [kind]) fun _ => found).append tail
    (fun _ _ _ _ _ _ => trivial) (fun _ _ _ _ => trivial)).imp
    (fun _ _ inside => by cases inside) (fun _ _ => trivial) ?_
  rintro s' final' - - ⟨_, ⟨middle', reads, here, rfl⟩, others⟩
  exact .argument reads (kind ▸ State.peekKind_of_peek here) others

/-- The last argument is read in another place, with the closing bracket. -/
theorem portable_lastArgument (known : s₁.peekKind = some close)
    (closes : close.closesBracket = true) (differs : close ≠ .comma)
    (head : (Phrase.expression .group 0 last).Portable s s₁) :
    (Phrase.argumentsFrom close [last]).Portable s s₁.next := by
  obtain ⟨token, found, rfl⟩ := State.peek_of_peekKind known
  refine (head.concat found (Kind.ne_error_of_closes closes) fun _ => found).imp
    (fun _ _ inside => by cases inside) (fun _ _ => trivial) ?_
  rintro s' _ - - ⟨middle', reads, here, rfl⟩
  exact .lastArgument reads (State.peekKind_of_peek here) differs

/-- No parameters are read in another place. -/
theorem portable_noParameters (opens : s.peekKind = some .leftParen)
    (closes : s.next.peekKind = some .rightParen) :
    (Phrase.parameters []).Portable s s.next.next := by
  obtain ⟨bracket, found, bracketKind⟩ := State.peek_of_peekKind opens
  obtain ⟨close, closing, closeKind⟩ := State.peek_of_peekKind closes
  refine ((Moves.single closing (by simp [closeKind])).cons found (by simp [bracketKind])).imp
    (fun _ _ _ => trivial) (fun _ _ => trivial) ?_
  rintro s' _ - - ⟨here, there, rfl⟩
  exact .noParameters (bracketKind ▸ State.peekKind_of_peek here)
    (closeKind ▸ State.peekKind_of_peek there)

/-- Parameters are read in another place. -/
theorem portable_parameters (opens : s.peekKind = some .leftParen)
    (differs : s.next.peekKind ≠ some .rightParen) (shorter : s₁.rest.length < s.next.rest.length)
    (head : (Phrase.parametersFrom params).Portable s.next s₁) :
    (Phrase.parameters params).Portable s s₁ := by
  obtain ⟨bracket, found, bracketKind⟩ := State.peek_of_peekKind opens
  refine ((head.peek shorter).cons found (by simp [bracketKind])).imp
    (fun _ _ _ => trivial) (fun _ _ => trivial) ?_
  rintro s' final' - - ⟨here, same, reads⟩
  exact .parameters (bracketKind ▸ State.peekKind_of_peek here)
    (peekKind_congr same ▸ differs) reads

/-- A parameter is read in another place, with the parameters behind it. -/
theorem portable_parameter (declares : s.param? = some param)
    (more : s.next.peekKind = some .comma)
    (head : (Phrase.parametersFrom params).Portable s.next.next s₁) :
    (Phrase.parametersFrom (param :: params)).Portable s s₁ := by
  obtain ⟨token, known, word⟩ := State.peek_of_param declares
  obtain ⟨comma, found, kind⟩ := State.peek_of_peekKind more
  refine ((head.cons found (by simp [kind])).cons known word).imp
    (fun _ _ _ _ => trivial) (fun _ _ => trivial) ?_
  rintro s' final' - - ⟨here, there, reads⟩
  exact .parameter (State.param_congr known here declares) (kind ▸ State.peekKind_of_peek there)
    reads

/-- The last parameter is read in another place, with the closing parenthesis. -/
theorem portable_lastParameter (declares : s.param? = some param)
    (closes : s.next.peekKind = some .rightParen) :
    (Phrase.parametersFrom [param]).Portable s s.next.next := by
  obtain ⟨token, known, word⟩ := State.peek_of_param declares
  obtain ⟨close, found, kind⟩ := State.peek_of_peekKind closes
  refine ((Moves.single found (by simp [kind])).cons known word).imp (fun _ _ _ => trivial)
    (fun _ _ => trivial) ?_
  rintro s' _ - - ⟨here, there, rfl⟩
  exact .lastParameter (State.param_congr known here declares)
    (kind ▸ State.peekKind_of_peek there)

end Parts

/-- Every phrase that is read is read in the same way in another place. -/
theorem Reads.portable {phrase : Phrase} {s final : State} (reads : Reads phrase s final) :
    phrase.Proper → phrase.Portable s final := by
  induction reads with intro proper
  | expression _ _ head tail => exact portable_expression (head trivial) (tail trivial)
  | stop stops => exact portable_stop stops
  | postfixed known gap entry strong suffix _ head tail =>
    exact portable_postfixed known gap entry strong (suffix.length_lt (by simp [Phrase.least]))
      (head trivial) (tail trivial)
  | infixed known gap entry strong operand _ head tail =>
    exact portable_infixed known gap entry strong (operand.length_lt (by simp [Phrase.least]))
      (head trivial) (tail trivial)
  | ident known kind => exact (moves_ident known kind).anywhere
  | number known kind =>
    exact (moves_token known (by simp [kind]) fun s' here => .number here kind).anywhere
  | string known kind =>
    exact (moves_token known (by simp [kind]) fun s' here => .string here kind).anywhere
  | lastIndex known kind text inside =>
    exact (moves_token known (by simp [kind]) fun s' here =>
      .lastIndex here kind text inside).anywhere
  | colon known kind alone => exact portable_colon known kind alone
  | ignored known kind alone => exact portable_ignored known kind alone
  | unary known entry attached operand head =>
    exact portable_unary known entry attached (operand.length_lt (by simp [Phrase.least]))
      (head trivial)
  | atSign known kind _ head => exact portable_atSign known kind (head trivial)
  | parens known kind _ closes head =>
    exact (moves_parens known kind (head trivial) closes).anywhere
  | matrix known kind _ head => exact (moves_matrix known kind (head rfl)).anywhere
  | cell known kind _ head => exact (moves_cell known kind (head rfl)).anywhere
  | lambda opens params _ head tail =>
    exact portable_lambda opens (params.length_lt (by simp [Phrase.least])) (head trivial)
      (tail trivial)
  | named known kind =>
    exact (moves_token known (by simp [kind]) fun s' here => .named here kind).anywhere
  | close known => exact portable_close known proper
  | rowEnd known differs breaks _ head => exact portable_rowEnd known differs breaks (head proper)
  | comma known differs _ head => exact portable_comma known differs (head proper)
  | element known differs plain first rest head tail =>
    exact portable_element known differs plain proper (first.length_lt (by simp [Phrase.least])) rest
      (head trivial) (tail proper)
  | call known kind _ head => exact (moves_call known kind (head rfl)).anywhere
  | cellIndex known kind _ head => exact (moves_cellIndex known kind (head rfl)).anywhere
  | member known kind named word => exact (moves_member known kind named word).anywhere
  | dynamic known kind opens _ closes head =>
    exact (moves_dynamic known kind opens (head trivial) closes).anywhere
  | transpose known mark => exact portable_transpose known mark
  | noArguments known => exact portable_noArguments known proper
  | arguments differs inner head =>
    exact portable_arguments differs (inner.length_lt (by simp [Phrase.least])) (head proper)
  | argument _ more _ head tail => exact portable_argument more (head trivial) (tail proper)
  | lastArgument _ closes differs head =>
    exact portable_lastArgument closes proper differs (head trivial)
  | noParameters opens closes => exact portable_noParameters opens closes
  | parameters opens differs inner head =>
    exact portable_parameters opens differs (inner.length_lt (by simp [Phrase.least])) (head trivial)
  | parameter declares more _ head => exact portable_parameter declares more (head trivial)
  | lastParameter declares closes => exact portable_lastParameter declares closes

end Grammar

end MatlabFront
