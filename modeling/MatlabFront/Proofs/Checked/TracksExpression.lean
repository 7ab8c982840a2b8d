import MatlabFront.Proofs.Checked.Expression
import MatlabFront.Proofs.Checked.Tracks
import MatlabFront.Proofs.Expression.Steps

/-!
# Readers of expressions track the parser

Each reader of expressions tracks the function of the parser that it spells out. Its checks hold for
three reasons: binding powers are small, an operator is looked up only where its token has been
seen, and what is read behind a dot that a parenthesis follows is an expression in parentheses.
-/

namespace MatlabFront.Checked

section Texts

/-- A text behind its first character is cut between two characters. -/
theorem behindBytes_utf8Size (first : Char) (rest : List Char) :
    behindBytes first.utf8Size (first :: rest) = some rest := by
  obtain ⟨size, known⟩ := Nat.exists_eq_add_one_of_ne_zero (Nat.ne_of_gt first.utf8Size_pos)
  rw [known, behindBytes, known, if_pos (Nat.le_refl _), Nat.sub_self, behindBytes]

/-- The value of a literal is cut out of its text without a breach. -/
theorem unquote_eq (text : String) : unquote text = pure (Literal.unquote text) := by
  unfold unquote
  cases chars : text.toList with
  | nil => simp only [Literal.unquote, chars, Literal.valueOf]
  | cons quote body =>
    simp only [behindBytes_utf8Size, Literal.unquote, chars, Literal.valueOf, Literal.dropClosing]

end Texts

section Powers

/-- The binding powers of infix operators are bytes. -/
theorem powers_lt (operator : InfixOperator) :
    operator.leftPower < 256 ∧ operator.rightPower < 256 := by
  obtain ⟨action, tier, associativity⟩ := operator
  change (tier.infixPowers associativity).1 < 256 ∧ (tier.infixPowers associativity).2 < 256
  cases tier <;> cases associativity <;> decide

/-- The power of a postfix operator fits in a byte. -/
theorem leftPower_lt (operator : PostfixOperator) : operator.leftPower < 256 := by
  cases operator <;> decide

end Powers

namespace Stands

variable {c : Cursor} {s : State} (stands : Stands c s)
include stands

/-- Whether the next two tokens touch is what the parser proper finds. -/
theorem touchesSecond_apply {token : Token} (found : s.peek = some token) :
    touchesSecond token c = .done (s.rest.tail.head?.any token.adjacentTo) c := by
  rw [touchesSecond, bind_apply, stands.peekAt_apply (by omega), Verdict.bind_done,
    List.head?_eq_getElem?, List.getElem?_tail]
  cases s.rest[0 + 1]? with
  | none => rfl
  | some following => exact stands.adjacent_apply (stands.mem_of_peek found) following

/-- Whether a new element begins is what the parser proper finds in the innermost bracket. -/
theorem atNewElement_apply :
    atNewElement c = .done (s.atGap (innermost c.brackets)) c := by
  rw [atNewElement, nesting, bind_apply, look_apply, Verdict.bind_done]
  by_cases inside : innermost c.brackets = .elements
  · rw [if_pos inside, bind_apply, stands.previous_apply, Verdict.bind_done, bind_apply,
      stands.peek_apply, Verdict.bind_done, State.atGap, inside, beq_self_eq_true, Bool.true_and]
    cases read : s.consumed with
    | nil => rfl
    | cons last consumed =>
      cases left : s.rest with
      | nil =>
        have ended : s.peek = none := by rw [State.peek, left]; rfl
        rw [ended]
        rfl
      | cons token later =>
        have found : s.peek = some token := by rw [State.peek, left]; rfl
        have inTokens : last ∈ c.tokens := stands.mem_of_consumed (by simp [read])
        rw [found, List.head?_cons]
        dsimp only
        rw [bind_apply, stands.adjacent_apply inTokens, Verdict.bind_done]
        unfold Parser.gapBeginsElement
        dsimp only
        cases last.adjacentTo token with
        | true => rfl
        | false =>
          rw [if_neg Bool.false_ne_true, Bool.not_false, Bool.true_and]
          have sign := stands.touchesSecond_apply found
          rw [left] at sign
          cases later <;> cases token.kind with
          | plus | minus => exact sign
          | _ => rfl
  · rw [if_neg inside, State.atGap, beq_false_of_ne inside, Bool.false_and]
    rfl

/-- Whether a colon is a whole subscript is what the parser proper finds in the innermost bracket.
-/
theorem colonStandsAlone_apply :
    colonStandsAlone c = .done (s.colonAlone (innermost c.brackets)) c := by
  rw [colonStandsAlone, nesting, bind_apply, look_apply, Verdict.bind_done]
  generalize innermost c.brackets = around
  cases around with
  | group =>
    rw [if_pos rfl, bind_apply, stands.secondKind_apply, Verdict.bind_done, State.colonAlone]
    cases s.secondKind with
    | none => rfl
    | some kind => cases kind <;> rfl
  | outside | elements => rfl

/-- Whether a tilde is an output to ignore is what the parser proper finds in the innermost bracket.
-/
theorem tildeStandsAlone_apply :
    tildeStandsAlone c = .done (s.tildeAlone (innermost c.brackets)) c := by
  rw [tildeStandsAlone, nesting, bind_apply, look_apply, Verdict.bind_done]
  generalize innermost c.brackets = around
  cases around with
  | elements =>
    rw [if_pos rfl, bind_apply, stands.secondKind_apply, Verdict.bind_done, State.tildeAlone]
    cases s.secondKind with
    | none => rfl
    | some kind => cases kind <;> rfl
  | outside | group => rfl

/-- The marks of a run are read one after the other, and their texts put together. -/
theorem marksFrom_apply {marks : String} {fuel : Nat} (enough : s.rest.length < fuel) :
    marksFrom marks fuel c =
      .done (marks ++ s.marks) (c.ahead (s.rest.takeWhile (·.kind.isMark)).length) := by
  induction fuel generalizing c s marks with
  | zero => exact absurd enough (Nat.not_lt_zero _)
  | succ fuel ih =>
    rw [marksFrom, bind_apply, stands.peek_apply, Verdict.bind_done, State.marks]
    cases found : s.peek with
    | none =>
      have empty : s.rest = [] := List.head?_eq_none_iff.mp found
      rw [empty]
      simp [Cursor.ahead]
    | some token =>
      have rest := State.rest_of_peek found
      have shorter : s.next.rest.length < fuel := by
        rw [rest, List.length_cons] at enough
        omega
      have mark : (token.kind = .transpose ∨ token.kind = .dotTranspose) ↔
          token.kind.isMark = true := by
        cases token.kind <;> decide
      simp only [mark]
      rw [rest, List.takeWhile_cons]
      split
      · rw [bind_apply, Checked.advance, discard_apply, stands.next_apply found, Verdict.bind_done,
          pure_apply, Verdict.bind_done, ih (stands.next found) shorter, Cursor.ahead_ahead,
          List.length_cons, Nat.add_comm, State.marks, List.map_cons, String.join_cons,
          String.append_assoc]
      · simp [Cursor.ahead]

end Stands

namespace Tracks

variable {depth : Depth} {known : State → Prop} {α : Type}

/-- Both see whether a new element begins. -/
theorem atNewElement {next : Bool → Reader α} {next' : Bool → Parser α}
    (tail : ∀ found, Tracks depth known (next found) (next' found)) :
    Tracks depth known (Checked.atNewElement >>= next)
      (Parser.atNewElement (innermost depth.brackets) >>= next') := by
  refine look (fun s => s.atGap (innermost depth.brackets)) id (fun c s deep stands _ => ?_)
    (Parser.atNewElement_apply (innermost depth.brackets)) fun found =>
      (tail found).weaken fun _ => And.left
  rw [stands.atNewElement_apply, ← deep]
  rfl

/-- Both see whether a colon is a whole subscript. -/
theorem colonStandsAlone {next : Bool → Reader α} {next' : Bool → Parser α}
    (tail : ∀ found, Tracks depth known (next found) (next' found)) :
    Tracks depth known (Checked.colonStandsAlone >>= next)
      (Parser.colonStandsAlone (innermost depth.brackets) >>= next') := by
  refine look (fun s => s.colonAlone (innermost depth.brackets)) id (fun c s deep stands _ => ?_)
    (Parser.colonStandsAlone_apply (innermost depth.brackets)) fun found =>
      (tail found).weaken fun _ => And.left
  rw [stands.colonStandsAlone_apply, ← deep]
  rfl

/-- Both see whether a tilde is an output to ignore. -/
theorem tildeStandsAlone {next : Bool → Reader α} {next' : Bool → Parser α}
    (tail : ∀ found, Tracks depth known (next found) (next' found)) :
    Tracks depth known (Checked.tildeStandsAlone >>= next)
      (Parser.tildeStandsAlone (innermost depth.brackets) >>= next') := by
  refine look (fun s => s.tildeAlone (innermost depth.brackets)) id (fun c s deep stands _ => ?_)
    (Parser.tildeStandsAlone_apply (innermost depth.brackets)) fun found =>
      (tail found).weaken fun _ => And.left
  rw [stands.tildeStandsAlone_apply, ← deep]
  rfl

/-- The innermost bracket is the nesting that the parser proper is given. -/
theorem nesting {parser : Parser α} {next : Nesting → Reader α}
    (tail : Tracks depth known (next (innermost depth.brackets)) parser) :
    Tracks depth known (Checked.nesting >>= next) parser :=
  check (fun c s deep _ _ => by rw [← deep]; rfl) tail

/-- Both take the same transpose marks. -/
theorem transposeMarks :
    Tracks depth known (rounds (marksFrom "")) Parser.transposeMarks := by
  intro c s deep stands _
  obtain ⟨fuel, enough, same⟩ := stands.rounds_apply (marksFrom "")
  rw [same, stands.marksFrom_apply enough, Parser.transposeMarks_apply, String.empty_append]
  exact .done deep (stands.skip Kind.isMark)

/-- Both read the same parameters behind an opening parenthesis. -/
theorem parametersFrom (steps : Nat) :
    Tracks depth known (Checked.parametersFrom steps) (Parser.parametersFrom steps) := by
  induction steps generalizing known with
  | zero => exact .exhausted
  | succ steps ih =>
    rw [Checked.parametersFrom, Parser.parametersFrom]
    have rest (known : State → Prop) (param : Param) : Tracks depth known
        (do
          if ← Checked.consume .comma then return param :: (← Checked.parametersFrom steps)
          else
            Functor.discard (Checked.expect .rightParen)
            return [param] : Reader (List Param))
        (do
          if ← Parser.consume .comma then return param :: (← Parser.parametersFrom steps)
          else
            Functor.discard (Parser.expect .rightParen)
            return [param]) := by
      refine .bind (.consume .comma) fun _ => ?_
      split
      · exact ih.bind fun _ => .pure _
      · exact (Tracks.expect .rightParen).discard.bind fun _ => .pure _
    refine .peek fun found => ?_
    cases found with
    | none => exact .bind .expectDeclared fun _ => .bind (.pure _) (rest _)
    | some token =>
      dsimp only
      split
      · exact .step (fun s holds => ⟨token, holds.2⟩) (.bind (.pure _) (rest _))
      · exact .bind .expectDeclared fun _ => .bind (.pure _) (rest _)

/-- Both read the same list of parameters. -/
theorem parameters (steps : Nat) :
    Tracks depth known (Checked.parameters steps) (Parser.parameters steps) := by
  refine (Tracks.expect .leftParen).discard.bind fun _ => .bind (.consume .rightParen) fun _ => ?_
  split
  · exact .pure _
  · exact parametersFrom steps

end Tracks

/-- Each reader of expressions tracks the function that it spells out. -/
structure TracksExpressions (steps : Nat) : Prop where
  expression (depth : Depth) (power : Nat) : Tracks depth Anywhere (expression steps power)
    (Parser.expression steps (innermost depth.brackets) power)
  operators (depth : Depth) (power : Nat) (left : Expr) : Tracks depth Anywhere
    (operators steps power left) (Parser.operators steps (innermost depth.brackets) power left)
  operand (depth : Depth) : Tracks depth Anywhere (operand steps)
    (Parser.operand steps (innermost depth.brackets))
  handle (depth : Depth) (pos : Position) : Tracks depth Anywhere (handle steps pos)
    (Parser.handle steps (innermost depth.brackets) pos)
  elements (brackets : List Bracket) (functions : Nat) (close : Kind) (afterElement : Bool) :
    Tracks ⟨.literal :: brackets, functions⟩ Anywhere (elements steps close afterElement)
      (Parser.elements steps close afterElement)
  postfixNode (depth : Depth) (left : Expr) (operator : PostfixOperator) (token : Token) :
    Tracks depth (·.peek = some token) (postfixNode steps left operator)
      (Parser.postfixNode steps left operator token.pos)
  arguments (brackets : List Bracket) (functions : Nat) (close : Kind) :
    Tracks ⟨.group :: brackets, functions⟩ Anywhere (arguments steps close)
      (Parser.arguments steps close)
  argumentsFrom (brackets : List Bracket) (functions : Nat) (close : Kind) :
    Tracks ⟨.group :: brackets, functions⟩ Anywhere (argumentsFrom steps close)
      (Parser.argumentsFrom steps close)

section Steps

variable {steps : Nat} (tracks : TracksExpressions steps) (depth : Depth)
include tracks

/-- An expression is read by both when its operands and operators are with a step less. -/
theorem tracks_expression (power : Nat) : Tracks depth Anywhere (expression (steps + 1) power)
    (Parser.expression (steps + 1) (innermost depth.brackets) power) := by
  rw [expression, Parser.expression]
  exact (tracks.operand depth).bind fun left => tracks.operators depth power left

/-- Operators are read by both when their operands are with a step less. -/
theorem tracks_operators (power : Nat) (left : Expr) : Tracks depth Anywhere
    (operators (steps + 1) power left)
    (Parser.operators (steps + 1) (innermost depth.brackets) power left) := by
  rw [operators, Parser.operators]
  refine .peekKind_of_peek fun found => ?_
  cases found with
  | none => exact .pure left
  | some token =>
    refine .atNewElement fun gap => ?_
    split
    · exact .pure left
    dsimp only
    cases token.kind.postfixOperator? with
    | some operator =>
      dsimp only
      refine .byte (leftPower_lt operator) ?_
      split
      · exact .pure left
      · have applied := (tracks.postfixNode depth left operator token).weaken
          fun s (holds : True ∧ s.peek = some token) => holds.2
        exact applied.bind fun whole => tracks.operators depth power whole
    | none =>
      cases token.kind.infixOperator? with
      | none => exact .pure left
      | some operator =>
        dsimp only
        refine .byte (powers_lt operator).1 (.byte (powers_lt operator).2 ?_)
        split
        · exact .pure left
        · refine .placed (fun s holds => holds.2) (.bind .advance fun _ => ?_)
          exact (tracks.expression depth _).bind fun right => tracks.operators depth power _

/-- An operand is tracked by the definition over its parts. A token that is an error was refused
before. -/
theorem tracks_operandOf : Tracks depth Anywhere
    (operandOf (expression steps) (handle steps) (elements steps))
    (Parser.operand (steps + 1) (innermost depth.brackets)) := by
  rw [operandOf, Parser.operand]
  refine .peek fun found => ?_
  cases found with
  | none => exact .complain (by simp)
  | some token =>
    have leaf (tree : Expr) : Tracks depth (fun s => Anywhere s ∧ s.peek = some token)
        (do advance; return tree : Reader Expr) (do Parser.advance; return tree) :=
      .bind .advance fun _ => .pure tree
    have sign (operator : UnaryOperator) : Tracks depth (fun s => Anywhere s ∧ s.peek = some token)
        (do
          let power ← byte UnaryOperator.operandPower
          advance
          return .unary operator (← expression steps power) token.pos : Reader Expr)
        (do
          Parser.advance
          return .unary operator (← Parser.expression steps (innermost depth.brackets)
            UnaryOperator.operandPower) token.pos) :=
      .byte (by decide) (.bind .advance fun _ => (tracks.expression depth _).bind fun _ => .pure _)
    dsimp only
    cases kind : token.kind with
    | ident => exact .advance_used (fun s holds => holds.2) fun name => .pure _
    | number => exact leaf _
    | string =>
      dsimp only
      rw [unquote_eq]
      exact leaf _
    | endKeyword =>
      refine .nesting ?_
      split
      · exact leaf _
      · exact .complain (by simp)
    | colon =>
      refine .colonStandsAlone fun alone => ?_
      split
      · exact leaf _
      · exact .complain (by simp)
    | tilde =>
      refine .tildeStandsAlone fun alone => ?_
      split
      · exact leaf _
      · exact sign .not
    | minus => exact sign .minus
    | plus => exact sign .plus
    | atSign => exact .bind .advance fun _ => tracks.handle depth token.pos
    | leftParen =>
      exact .bind .advance fun _ => .bind (.nested (tracks.expression ⟨.group :: _, _⟩ 0))
        fun inner => (Tracks.expect .rightParen).discard.bind fun _ => .pure _
    | leftBracket | leftBrace =>
      exact .bind .advance fun _ => .bind (.nested (tracks.elements _ _ _ false)) fun _ => .pure _
    | error =>
      refine .impossible fun c s stands holds => ?_
      exact stands.clean token (stands.mem_of_peek holds.2) kind
    | _ => exact .complain (by simp)

/-- An operand is read by both when the phrases within it are with a step less. -/
theorem tracks_operand : Tracks depth Anywhere (operand (steps + 1))
    (Parser.operand (steps + 1) (innermost depth.brackets)) := by
  rw [operand]
  exact tracks_operandOf tracks depth

/-- A handle or an anonymous function is read by both when its body is with a step less. -/
theorem tracks_handle (pos : Position) : Tracks depth Anywhere (handle (steps + 1) pos)
    (Parser.handle (steps + 1) (innermost depth.brackets) pos) := by
  rw [handle, Parser.handle]
  refine .peekKind_of_peek fun found => ?_
  cases found with
  | none => exact .complain (by simp)
  | some token =>
    dsimp only [Option.map_some]
    cases kind : token.kind with
    | leftParen =>
      exact .bind (.parameters steps) fun params => .byte (by decide)
        ((tracks.expression depth _).bind fun body => .pure _)
    | ident => exact .expected (fun s holds => holds.2) kind (.pure _)
    | _ => exact .complain (by simp)

/-- The elements of a literal are read by both when each of them is with a step less. -/
theorem tracks_elements (brackets : List Bracket) (functions : Nat) (close : Kind)
    (afterElement : Bool) : Tracks ⟨.literal :: brackets, functions⟩ Anywhere
      (elements (steps + 1) close afterElement)
      (Parser.elements (steps + 1) close afterElement) := by
  rw [elements, Parser.elements]
  refine .peekKind fun found => ?_
  cases found with
  | none => exact .complain (by simp)
  | some kind =>
    dsimp only
    split
    · exact .bind .advance fun _ => .pure _
    split
    · exact .bind .advance fun _ => (tracks.elements _ _ close false).bind fun _ => .pure _
    split
    · split
      · exact .bind .advance fun _ => (tracks.elements _ _ close false).anyway
      · exact .complain (by simp)
    · exact (tracks.expression ⟨.literal :: brackets, functions⟩ 0).anyway.bind fun element =>
        (tracks.elements _ _ close true).bind fun _ => .pure _

/-- Arguments are read by both when a list that is not empty is with a step less. -/
theorem tracks_arguments (brackets : List Bracket) (functions : Nat) (close : Kind) :
    Tracks ⟨.group :: brackets, functions⟩ Anywhere (arguments (steps + 1) close)
      (Parser.arguments (steps + 1) close) := by
  rw [arguments, Parser.arguments]
  refine .bind (.consume close) fun _ => ?_
  split
  · exact .pure _
  · exact tracks.argumentsFrom brackets functions close

/-- A list of arguments is read by both when its first one and the rest are with a step less. -/
theorem tracks_argumentsFrom (brackets : List Bracket) (functions : Nat) (close : Kind) :
    Tracks ⟨.group :: brackets, functions⟩ Anywhere (argumentsFrom (steps + 1) close)
      (Parser.argumentsFrom (steps + 1) close) := by
  rw [argumentsFrom, Parser.argumentsFrom]
  refine (tracks.expression ⟨.group :: brackets, functions⟩ 0).bind fun first =>
    .bind (.consume .comma) fun _ => ?_
  split
  · exact (tracks.argumentsFrom brackets functions close).bind fun _ => .pure _
  · exact (Tracks.expect close).discard.bind fun _ => .pure _

/-- Behind a dot a parenthesis is an operand in parentheses, which has a member's form. -/
theorem tracks_member (left : Expr) (pos : Position) {known : State → Prop} {token : Token}
    (here : ∀ s, known s → s.peek = some token) (kind : token.kind = .leftParen) :
    Tracks depth known
      (do
        let name ← operandOf (expression steps) (handle steps) (elements steps)
        member left name pos)
      (do
        Parser.advance
        let name ← Parser.expression steps .group 0
        discard (Parser.expect .rightParen)
        return .member left (.dynamic name) pos) := by
  have written : Tracks depth known
      (do
        advance
        let inner ← nested .group (expression steps 0)
        discard (expect .rightParen)
        member left (.parens inner token.pos) pos : Reader Expr)
      (do
        Parser.advance
        let name ← Parser.expression steps .group 0
        discard (Parser.expect .rightParen)
        return .member left (.dynamic name) pos) :=
    .bind .advance fun _ => .bind (.nested (tracks.expression ⟨.group :: _, _⟩ 0)) fun inner =>
      (Tracks.expect .rightParen).discard.bind fun _ => .pure _
  refine written.congr_reader fun c s stands holds => ?_
  rw [operandOf, bind_assoc, bind_apply, stands.peek_apply, here s holds, Verdict.bind_done]
  simp only [kind, bind_assoc]
  rfl

/-- A postfix operator is read by both when what it encloses is with a step less. -/
theorem tracks_postfixNode (left : Expr) (operator : PostfixOperator) (token : Token) :
    Tracks depth (·.peek = some token) (postfixNode (steps + 1) left operator)
      (Parser.postfixNode (steps + 1) left operator token.pos) := by
  cases operator with
  | call | cellIndex =>
    rw [postfixNode, Parser.postfixNode]
    exact .bind .advance fun _ => .bind (.nested (tracks.arguments _ _ _)) fun _ => .pure _
  | transpose =>
    rw [postfixNode, Parser.postfixNode]
    exact .placed (fun s holds => holds) (.bind .transposeMarks fun _ => .pure _)
  | field =>
    rw [postfixNode, Parser.postfixNode]
    refine .next (fun s holds => holds) (.peekKind_of_peek fun found => ?_)
    cases found with
    | none => exact .complain (by simp)
    | some name =>
      dsimp only [Option.map_some]
      cases kind : name.kind with
      | ident => exact .next (fun s holds => holds.2) (.pure _)
      | leftParen => exact tracks_member tracks depth left token.pos (fun s holds => holds.2) kind
      | _ => exact .complain (by simp)

end Steps

/-- The readers of expressions track the parser, with every number of steps. -/
theorem tracksExpressions (steps : Nat) : TracksExpressions steps := by
  induction steps with
  | zero =>
    exact {
      expression := fun _ _ => .exhausted
      operators := fun _ _ _ => .exhausted
      operand := fun _ => .exhausted
      handle := fun _ _ => .exhausted
      elements := fun _ _ _ _ => .exhausted
      postfixNode := fun _ _ _ _ => .exhausted
      arguments := fun _ _ _ => .exhausted
      argumentsFrom := fun _ _ _ => .exhausted }
  | succ steps tracks =>
    exact {
      expression := tracks_expression tracks
      operators := tracks_operators tracks
      operand := tracks_operand tracks
      handle := tracks_handle tracks
      elements := tracks_elements tracks
      postfixNode := tracks_postfixNode tracks
      arguments := tracks_arguments tracks
      argumentsFrom := tracks_argumentsFrom tracks }

end MatlabFront.Checked
