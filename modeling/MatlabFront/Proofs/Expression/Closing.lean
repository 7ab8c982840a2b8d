import MatlabFront.Proofs.Expression.Nested
import MatlabFront.Proofs.Expression.Rounds

/-!
# The token with which an expression ends

Behind a value an apostrophe is a transpose, and behind every other token it opens a string. What is
a value is looked up in a table of kinds, which knows nothing of the grammar. Every expression ends
with a kind of that table, unless its last operand is a bare colon, an output to ignore or the last
index of a subscript. The last of these is a value like any other, and an apostrophe behind it opens
a string all the same.
-/

namespace MatlabFront

/-- The operand with which an expression ends, outside of its brackets, is the last index of a
subscript. -/
def Expr.endsAtLastIndex : Expr → Bool
  | .lastIndex _ => true
  | .range _ _ stop _ => stop.endsAtLastIndex
  | .unary _ operand _ => operand.endsAtLastIndex
  | .binary _ _ right _ => right.endsAtLastIndex
  | .lambda _ body _ => body.endsAtLastIndex
  | _ => false

namespace Expr

variable {left right callee : Expr} {args : List Expr} {pos : Position}

/-- The node of an infix operator ends with its right operand. -/
theorem endsAtLastIndex_infixNode (operator : InfixOperator) :
    (infixNode operator left right pos).endsAtLastIndex = right.endsAtLastIndex := by
  unfold infixNode rangeTo
  split
  · rfl
  · split <;> rfl

/-- A call ends with its closing parenthesis. -/
theorem endsAtLastIndex_apply : (callee.apply args).endsAtLastIndex = false := by
  unfold apply
  split <;> rfl

/-- A token may be the last of an expression: it ends a value, or it is a colon, a tilde or the last
index of a subscript. -/
structure EndsAt (whole : Expr) (last : Token) : Prop where
  kind : last.kind.endsValue = true ∨ last.kind ∈ [.colon, .tilde, .endKeyword]
  keyword : last.kind = .endKeyword ↔ whole.endsAtLastIndex = true

variable {whole made : Expr} {last : Token}

/-- A token that ends a value closes it. -/
theorem EndsAt.of_value (ends : last.kind.endsValue = true)
    (other : whole.endsAtLastIndex = false) : whole.EndsAt last := by
  refine ⟨.inl ends, ?_, ?_⟩
  · intro keyword
    rw [keyword] at ends
    cases ends
  · intro lastIndex
    rw [other] at lastIndex
    cases lastIndex

/-- Expressions that end with the same operand end with the same token. -/
theorem EndsAt.congr (closed : whole.EndsAt last)
    (same : made.endsAtLastIndex = whole.endsAtLastIndex) : made.EndsAt last :=
  ⟨closed.kind, by rw [same]; exact closed.keyword⟩

end Expr

namespace State

/-- The last token in front of a state closes an expression. -/
def Closes (s : State) (whole : Expr) : Prop :=
  ∃ last, s.consumed.head? = some last ∧ whole.EndsAt last

variable {s final : State} {whole made : Expr} {token : Token} {close : Kind}

/-- The token that is gone over is the last one in front of the new state. -/
theorem head_consumed_of_peek (known : s.peek = some token) :
    s.next.consumed.head? = some token := by
  rw [consumed_next known]
  rfl

/-- What closes an expression closes any that ends with the same operand. -/
theorem Closes.congr (closes : s.Closes whole)
    (same : made.endsAtLastIndex = whole.endsAtLastIndex) : s.Closes made := by
  obtain ⟨last, behind, closed⟩ := closes
  exact ⟨last, behind, closed.congr same⟩

/-- A token that ends a value is read as the last of an expression. -/
theorem Closes.next (known : s.peek = some token) (ends : token.kind.endsValue = true)
    (other : whole.endsAtLastIndex = false) : s.next.Closes whole :=
  ⟨token, head_consumed_of_peek known, .of_value ends other⟩

/-- The bracket that closes is the last token of what it encloses. -/
theorem Encloses.closes (encloses : s.Encloses close final) (ends : close.endsValue = true)
    (other : whole.endsAtLastIndex = false) : final.Closes whole := by
  obtain ⟨inner, -, closing, rfl⟩ := encloses
  obtain ⟨token, known, rfl⟩ := peek_of_peekKind closing
  exact .next known ends other

/-- The last of some marks is the last token of what they transpose. -/
theorem Closes.skip (known : s.peek = some token) (mark : token.kind.isMark = true)
    (other : whole.endsAtLastIndex = false) : (s.skip Kind.isMark).Closes whole := by
  have marks : s.rest.takeWhile (·.kind.isMark) ≠ [] := by
    rw [rest_of_peek known, List.takeWhile_cons, if_pos mark]
    exact List.cons_ne_nil _ _
  obtain ⟨front, last, run⟩ := List.eq_nil_or_concat _ |>.resolve_left marks
  have accepted : last.kind.isMark = true := by
    have all : ∀ token ∈ s.rest.takeWhile (·.kind.isMark), token.kind.isMark = true :=
      List.all_eq_true.mp List.all_takeWhile
    exact all last (by rw [run]; simp)
  refine ⟨last, ?_, .of_value ?_ other⟩
  · rw [(Advances.skip s Kind.isMark).consumed, run, List.concat_eq_append, List.reverse_append]
    rfl
  · cases kind : last.kind <;> first | rfl | (rw [kind] at accepted; cases accepted)

end State

namespace Grammar

/-- What is known of the last token of a phrase once it has been read. -/
def Phrase.Closed (s final : State) : Phrase → Prop
  | .expression _ _ whole | .operand _ whole | .handle _ _ whole | .suffix _ _ whole =>
    final.Closes whole
  | .operators _ _ left whole => s.Closes left → final.Closes whole
  | _ => True

/-- Whatever is read as an expression ends with a token that closes it. -/
theorem Reads.closed {phrase : Phrase} {s final : State} (reads : Reads phrase s final) :
    phrase.Closed s final := by
  induction reads with
  | expression _ _ head tail => exact tail head
  | stop => exact id
  | postfixed _ _ _ _ _ _ head tail => exact fun _ => tail head
  | infixed _ _ _ _ _ _ head tail =>
    exact fun _ => tail (State.Closes.congr head (Expr.endsAtLastIndex_infixNode _))
  | ident known kind =>
    exact ⟨_, by rw [State.note_consumed]; exact State.head_consumed_of_peek known,
      .of_value (by rw [kind]; rfl) rfl⟩
  | number known kind | string known kind => exact .next known (by rw [kind]; rfl) rfl
  | lastIndex known kind =>
    exact ⟨_, State.head_consumed_of_peek known, .inr (by simp [kind]), iff_of_true kind rfl⟩
  | colon known kind | ignored known kind =>
    exact ⟨_, State.head_consumed_of_peek known, .inr (by simp [kind]),
      by simp [kind, Expr.endsAtLastIndex]⟩
  | unary _ _ _ _ ih => exact State.Closes.congr ih rfl
  | atSign _ _ _ ih => exact ih
  | parens _ _ _ closing => exact State.Encloses.closes (.next closing) rfl rfl
  | matrix _ _ inner | cell _ _ inner => exact inner.nests.closes rfl rfl
  | lambda _ _ _ _ body => exact State.Closes.congr body rfl
  | named known kind => exact .next known (by rw [kind]; rfl) rfl
  | call _ _ inner => exact inner.nests.closes rfl Expr.endsAtLastIndex_apply
  | cellIndex _ _ inner => exact inner.nests.closes rfl rfl
  | member _ _ known kind => exact .next known (by rw [kind]; rfl) rfl
  | dynamic _ _ _ _ closing => exact State.Encloses.closes (.next closing) rfl rfl
  | transpose known mark => exact .skip known mark rfl
  | close | rowEnd | comma | element | noArguments | arguments | argument | lastArgument
  | noParameters | parameters | parameter | lastParameter => trivial

end Grammar

/-- Directly behind a token an apostrophe is a transpose exactly when the token ends a value. -/
theorem Context.lexeme_apostrophe {context : Context} {last : Token}
    (behind : context.last = some last) (touches : context.pos.offset = last.stop)
    (cs : List Char) :
    context.lexeme '\'' cs = ⟨some .transpose, 0⟩ ↔ last.kind.endsValue = true := by
  have transposes : context.transposes = last.kind.endsValue := by
    simp [Context.transposes, behind, touches]
  have plain : Lexeme.read '\'' cs = ⟨some .quote, 0⟩ := rfl
  simp only [Context.lexeme, plain, transposes]
  split
  case isTrue ends => exact iff_of_true rfl ends
  case isFalse other =>
    refine iff_of_false ?_ other
    split <;> simp

/-- Every accepted expression ends with a token of its own. The token ends a value, so that an
apostrophe directly behind it is a transpose, unless it is a colon or a tilde that stands alone or
the last index of a subscript, which is then the operand with which the expression ends. -/
theorem Parser.expression_closed {steps power : Nat} {nesting : Nesting} {whole : Expr}
    {s final : State} (accepted : Parser.expression steps nesting power s = .done whole final) :
    ∃ run last, s.rest = run ++ last :: final.rest ∧
      final.consumed = last :: (run.reverse ++ s.consumed) ∧
      (last.kind.endsValue = true ∨ last.kind ∈ [.colon, .tilde, .endKeyword]) ∧
      (last.kind = .endKeyword ↔ whole.endsAtLastIndex = true) ∧
      ∀ context : Context, context.last = some last → context.pos.offset = last.stop → ∀ cs,
        (context.lexeme '\'' cs = ⟨some .transpose, 0⟩ ↔
          last.kind ∉ [.colon, .tilde, .endKeyword]) := by
  have reads := Grammar.soundAt steps (.expression nesting power whole) s final accepted
  obtain ⟨last, behind, closed⟩ := reads.closed
  obtain ⟨taken, filled, advances⟩ := expression_passes nesting power whole final accepted
  obtain ⟨run, other, rfl⟩ := (List.eq_nil_or_concat taken).resolve_left filled
  rw [List.concat_eq_append] at advances
  obtain rfl : other = last := by
    rw [advances.consumed, List.reverse_append] at behind
    exact Option.some.inj behind
  refine ⟨run, other, ?_, ?_, closed.kind, closed.keyword, fun context here touches cs => ?_⟩
  · rw [advances.rest, List.append_assoc]
    rfl
  · rw [advances.consumed, List.reverse_append]
    rfl
  · rw [Context.lexeme_apostrophe here touches]
    constructor
    · intro ends among
      simp only [List.mem_cons, List.not_mem_nil, or_false] at among
      obtain same | same | same := among <;> (rw [same] at ends; cases ends)
    · exact closed.kind.resolve_right

/-- The call `a(end)` ends with its bracket, and an apostrophe directly behind it is a transpose. -/
theorem Parser.expression_closed_call :
    Parser.expression 9 .outside 0 ⟨[], [⟨.ident, "a", ⟨1, 0⟩⟩, ⟨.leftParen, "(", ⟨1, 1⟩⟩,
        ⟨.endKeyword, "end", ⟨1, 2⟩⟩, ⟨.rightParen, ")", ⟨1, 5⟩⟩], none, []⟩ =
      .done (.call (.mk (.ident ⟨"a", ⟨1, 0⟩⟩) [.lastIndex ⟨1, 2⟩] none ⟨1, 0⟩))
        ⟨[⟨.rightParen, ")", ⟨1, 5⟩⟩, ⟨.endKeyword, "end", ⟨1, 2⟩⟩, ⟨.leftParen, "(", ⟨1, 1⟩⟩,
          ⟨.ident, "a", ⟨1, 0⟩⟩], [], none, []⟩ ∧
      ∀ context : Context, context.last = some ⟨.rightParen, ")", ⟨1, 5⟩⟩ →
        context.pos.offset = 6 → context.lexeme '\'' [] = ⟨some .transpose, 0⟩ := by
  have accepted : Parser.expression 9 .outside 0 ⟨[], [⟨.ident, "a", ⟨1, 0⟩⟩,
      ⟨.leftParen, "(", ⟨1, 1⟩⟩, ⟨.endKeyword, "end", ⟨1, 2⟩⟩, ⟨.rightParen, ")", ⟨1, 5⟩⟩],
        none, []⟩ =
      .done (.call (.mk (.ident ⟨"a", ⟨1, 0⟩⟩) [.lastIndex ⟨1, 2⟩] none ⟨1, 0⟩))
        ⟨[⟨.rightParen, ")", ⟨1, 5⟩⟩, ⟨.endKeyword, "end", ⟨1, 2⟩⟩, ⟨.leftParen, "(", ⟨1, 1⟩⟩,
          ⟨.ident, "a", ⟨1, 0⟩⟩], [], none, []⟩ := rfl
  obtain ⟨run, last, -, consumed, -, -, apostrophe⟩ := Parser.expression_closed accepted
  obtain ⟨rfl, -⟩ := List.cons.inj consumed
  exact ⟨accepted, fun context behind touches =>
    (apostrophe context behind touches []).mpr (by decide)⟩

/-- The argument of `a(end)` ends at `end`, an index that `.'` transposes. The apostrophe of
`a(end')` opens a string that does not close. -/
theorem Parser.expression_closed_lastIndex :
    Parser.expression 9 .group 0 ⟨[], [⟨.endKeyword, "end", ⟨1, 6⟩⟩, ⟨.rightParen, ")", ⟨1, 9⟩⟩],
        none, []⟩ =
      .done (.lastIndex ⟨1, 6⟩)
        ⟨[⟨.endKeyword, "end", ⟨1, 6⟩⟩], [⟨.rightParen, ")", ⟨1, 9⟩⟩], none, []⟩ ∧
      Kind.endsValue .endKeyword = false ∧
      Parser.expression 9 .group 0 ⟨[], [⟨.endKeyword, "end", ⟨1, 6⟩⟩,
          ⟨.dotTranspose, ".'", ⟨1, 9⟩⟩, ⟨.rightParen, ")", ⟨1, 11⟩⟩], none, []⟩ =
        .done (.transpose (.lastIndex ⟨1, 6⟩) ".'" ⟨1, 9⟩)
          ⟨[⟨.dotTranspose, ".'", ⟨1, 9⟩⟩, ⟨.endKeyword, "end", ⟨1, 6⟩⟩],
            [⟨.rightParen, ")", ⟨1, 11⟩⟩], none, []⟩ ∧
      Token.ofText "x = a(end')" = [⟨.ident, "x", ⟨1, 0⟩⟩, ⟨.assign, "=", ⟨1, 2⟩⟩,
        ⟨.ident, "a", ⟨1, 4⟩⟩, ⟨.leftParen, "(", ⟨1, 5⟩⟩, ⟨.endKeyword, "end", ⟨1, 6⟩⟩,
        ⟨.error, "')", ⟨1, 9⟩⟩] := by
  exact ⟨rfl, rfl, rfl, by decide +kernel⟩

end MatlabFront
