import MatlabFront.Proofs.Expression.Context
import MatlabFront.Proofs.Token.Lossless

/-!
# Expressions nest their brackets

The lexer lets every closing bracket close the innermost one, whatever its kind is. An expression
that is read closes each of its brackets with one of the same kind, and so does what is left of a
literal or of a list in brackets with the one behind which it is read. Among tokens that are
balanced in this way the brackets that the lexer takes to be open are those that are.
-/

namespace MatlabFront

/-- A kind is no bracket. -/
def Kind.Plain (kind : Kind) : Prop := kind.opensBracket = false ∧ kind.closesBracket = false

namespace Kind

/-- What is no bracket leaves the open brackets as they are. -/
theorem Plain.bracketsAfter {kind : Kind} (plain : kind.Plain) (brackets : List Kind) :
    Context.bracketsAfter brackets kind = brackets := by
  rw [Context.bracketsAfter, plain.1, plain.2]
  rfl

/-- The sign of an infix operator is no bracket. -/
theorem plain_of_infix {kind : Kind} {operator : InfixOperator}
    (entry : kind.infixOperator? = some operator) : kind.Plain := by
  cases kind <;> first | exact ⟨rfl, rfl⟩ | cases entry

/-- The sign of a prefix operator is no bracket. -/
theorem plain_of_unary {kind : Kind} {operator : UnaryOperator}
    (entry : kind.unaryOperator? = some operator) : kind.Plain := by
  cases kind <;> first | exact ⟨rfl, rfl⟩ | cases entry

/-- A transpose mark is no bracket. -/
theorem plain_of_isMark {kind : Kind} (mark : kind.isMark = true) : kind.Plain := by
  cases kind <;> first | exact ⟨rfl, rfl⟩ | cases mark

end Kind

/-- A kind of bracket is closed by another kind. -/
inductive Kind.ClosedBy : Kind → Kind → Prop where
  | parentheses : ClosedBy .leftParen .rightParen
  | brackets : ClosedBy .leftBracket .rightBracket
  | braces : ClosedBy .leftBrace .rightBrace

/-- What is closed is an opening bracket. -/
theorem Kind.ClosedBy.opens {opener closer : Kind} (pair : opener.ClosedBy closer) :
    opener.opensBracket = true := by
  cases pair <;> rfl

/-- What closes a bracket makes the one behind it the innermost. -/
theorem Kind.ClosedBy.bracketsAfter {opener closer : Kind} (pair : opener.ClosedBy closer)
    (brackets : List Kind) : Context.bracketsAfter (opener :: brackets) closer = brackets := by
  cases pair <;> rfl

/-- Tokens whose brackets are properly nested and match in kind. -/
inductive Balanced : List Token → Prop where
  | nil : Balanced []
  | plain {token : Token} {rest : List Token} : token.kind.Plain → Balanced rest →
    Balanced (token :: rest)
  | enclosed {opener closer : Token} {inner rest : List Token} :
    opener.kind.ClosedBy closer.kind → Balanced inner → Balanced rest →
      Balanced (opener :: (inner ++ closer :: rest))

/-- Tokens that open some brackets which they do not close, innermost first, with balanced tokens
in front of these, between them and behind them. -/
inductive Opens : List Kind → List Token → Prop where
  | balanced {front : List Token} : Balanced front → Opens [] front
  | opener {brackets : List Kind} {front inner : List Token} {opener : Token} :
    Opens brackets front → opener.kind.opensBracket = true → Balanced inner →
      Opens (opener.kind :: brackets) (front ++ opener :: inner)

/-- Tokens that close all of some open brackets, innermost first, and those that they open
themselves, each with one of the same kind. -/
inductive Closes : List Kind → List Token → Prop where
  | nil : Closes [] []
  | plain {brackets : List Kind} {token : Token} {back : List Token} : token.kind.Plain →
    Closes brackets back → Closes brackets (token :: back)
  | opener {brackets : List Kind} {token : Token} {back : List Token} :
    token.kind.opensBracket = true → Closes (token.kind :: brackets) back →
      Closes brackets (token :: back)
  | closer {bracket : Kind} {brackets : List Kind} {token : Token} {back : List Token} :
    bracket.ClosedBy token.kind → Closes brackets back → Closes (bracket :: brackets) (token :: back)

variable {brackets : List Kind} {run more front back : List Token} {token : Token}

/-- The brackets that are open behind some tokens are found token by token. -/
theorem bracketsBehind_cons : bracketsBehind brackets (token :: run) =
    bracketsBehind (Context.bracketsAfter brackets token.kind) run := rfl

/-- The brackets that are open behind two runs of tokens are found run by run. -/
theorem bracketsBehind_append : bracketsBehind brackets (run ++ more) =
    bracketsBehind (bracketsBehind brackets run) more :=
  List.foldl_append

/-- Behind an opening bracket it is the innermost one. -/
theorem bracketsBehind_opener (opens : token.kind.opensBracket = true) :
    bracketsBehind brackets (token :: run) = bracketsBehind (token.kind :: brackets) run := by
  rw [bracketsBehind_cons, Context.bracketsAfter, if_pos opens]

namespace Balanced

/-- Balanced tokens behind balanced tokens are balanced. -/
theorem append (head : Balanced run) (tail : Balanced more) : Balanced (run ++ more) := by
  induction head with
  | nil => exact tail
  | plain plain _ ih => exact .plain plain ih
  | enclosed pair inner _ _ ih =>
    rw [List.cons_append, List.append_assoc, List.cons_append]
    exact .enclosed pair inner ih

/-- Behind balanced tokens the same brackets are open as in front of them. -/
theorem bracketsBehind (balanced : Balanced run) (brackets : List Kind) :
    MatlabFront.bracketsBehind brackets run = brackets := by
  induction balanced generalizing brackets with
  | nil => rfl
  | plain plain _ ih => rw [bracketsBehind_cons, plain.bracketsAfter, ih]
  | enclosed pair _ _ inner rest =>
    rw [bracketsBehind_opener pair.opens, bracketsBehind_append, inner, bracketsBehind_cons,
      pair.bracketsAfter, rest]

/-- Balanced tokens may stand in front of those that close some brackets. -/
theorem closes (balanced : Balanced run) (behind : Closes brackets back) :
    Closes brackets (run ++ back) := by
  induction balanced generalizing brackets back with
  | nil => exact behind
  | plain plain _ ih => exact .plain plain (ih behind)
  | enclosed pair _ _ inner rest =>
    rw [List.cons_append, List.append_assoc, List.cons_append]
    exact .opener pair.opens (inner (.closer pair (rest behind)))

end Balanced

namespace Opens

/-- Balanced tokens leave the open brackets as they are. -/
theorem append (opens : Opens brackets front) (balanced : Balanced run) :
    Opens brackets (front ++ run) := by
  cases opens with
  | balanced before => exact .balanced (before.append balanced)
  | opener before opener inner =>
    rw [List.append_assoc, List.cons_append]
    exact .opener before opener (inner.append balanced)

/-- The lexer takes those brackets to be open which are. -/
theorem bracketsBehind (opens : Opens brackets front) :
    MatlabFront.bracketsBehind [] front = brackets := by
  induction opens with
  | balanced balanced => exact balanced.bracketsBehind []
  | opener _ opener inner ih =>
    rw [bracketsBehind_append, ih, bracketsBehind_opener opener, inner.bracketsBehind]

/-- When the next token can be read in front of what closes the open brackets, the lexer keeps
account of them behind it. -/
theorem step (opens : Opens brackets front) (closes : Closes brackets (token :: back)) :
    Opens (Context.bracketsAfter brackets token.kind) (front ++ [token]) ∧
      Closes (Context.bracketsAfter brackets token.kind) back := by
  cases closes with
  | plain plain behind =>
    rw [plain.bracketsAfter]
    exact ⟨opens.append (.plain plain .nil), behind⟩
  | opener opener behind =>
    rw [Context.bracketsAfter, if_pos opener]
    exact ⟨.opener opens opener .nil, behind⟩
  | closer pair behind =>
    rw [pair.bracketsAfter]
    cases opens with
    | opener before _ inner =>
      rw [List.append_assoc, List.cons_append]
      exact ⟨before.append (.enclosed pair inner .nil), behind⟩

/-- The lexer keeps account of the open brackets while it reads on. -/
theorem split {before : List Token} (opens : Opens brackets before)
    (closes : Closes brackets (front ++ back)) :
    Opens (MatlabFront.bracketsBehind brackets front) (before ++ front) ∧
      Closes (MatlabFront.bracketsBehind brackets front) back := by
  induction front generalizing brackets before with
  | nil => exact ⟨by rwa [List.append_nil], closes⟩
  | cons token front ih =>
    obtain ⟨behind, rest⟩ := opens.step closes
    rw [bracketsBehind_cons, List.append_cons]
    exact ih behind rest

end Opens

/-- Wherever balanced tokens are cut, the brackets that the lexer takes to be open are those that
the front opens, and the back closes them. -/
theorem Balanced.split (balanced : Balanced (front ++ back)) :
    Opens (MatlabFront.bracketsBehind [] front) front ∧
      Closes (MatlabFront.bracketsBehind [] front) back := by
  have closes := balanced.closes .nil
  rw [List.append_nil] at closes
  exact Opens.split (.balanced .nil) closes

namespace State

/-- Balanced tokens lie between two states. -/
def Nests (s final : State) : Prop := ∃ run, s.Advances run final ∧ Balanced run

/-- Balanced tokens and a closing bracket of a kind lie between two states. -/
def Encloses (close : Kind) (s final : State) : Prop :=
  ∃ last, s.Nests last ∧ last.peekKind = some close ∧ last.next = final

variable {s s₁ s₂ : State}

/-- No tokens at all are balanced. -/
theorem Nests.refl (s : State) : s.Nests s := ⟨[], .refl s, .nil⟩

/-- Balanced tokens up to a state and from it on are balanced together. -/
theorem Nests.trans (head : s.Nests s₁) (tail : s₁.Nests s₂) : s.Nests s₂ := by
  obtain ⟨front, first, nested⟩ := head
  obtain ⟨back, second, behind⟩ := tail
  exact ⟨front ++ back, first.trans second, nested.append behind⟩

/-- A state with the same tokens in front of it and behind it may stand for another. -/
theorem Nests.congr (head : s.Nests s₁) (rest : s₂.rest = s₁.rest)
    (consumed : s₂.consumed = s₁.consumed) : s.Nests s₂ := by
  obtain ⟨run, advances, balanced⟩ := head
  exact ⟨run, ⟨by rw [rest, advances.rest], by rw [consumed, advances.consumed]⟩, balanced⟩

/-- A noted name takes no token. -/
theorem Nests.note (head : s.Nests s₁) (name : String) : s.Nests (s₁.note name) :=
  head.congr (note_rest s₁ name) (note_consumed s₁ name)

/-- What is no bracket is read in front of balanced tokens. -/
theorem Nests.next {kind : Kind} (known : s.peekKind = some kind) (plain : kind.Plain) :
    s.Nests s.next := by
  obtain ⟨token, here, rfl⟩ := peek_of_peekKind known
  exact ⟨[token], .next here, .plain plain .nil⟩

/-- A known token that is no bracket is read. -/
theorem Nests.of_peek (known : s.peek = some token) (plain : token.kind.Plain) : s.Nests s.next :=
  .next (peekKind_of_peek known) plain

/-- Tokens that are skipped are balanced when none of them can be a bracket. -/
theorem Nests.skip {test : Kind → Bool} (plain : ∀ kind, test kind = true → kind.Plain) :
    s.Nests (s.skip test) := by
  refine ⟨_, .skip s test, ?_⟩
  have accepted : ∀ token ∈ s.rest.takeWhile (test ·.kind), test token.kind = true :=
    List.all_eq_true.mp List.all_takeWhile
  generalize s.rest.takeWhile (test ·.kind) = run at accepted
  induction run with
  | nil => exact .nil
  | cons token run ih =>
    obtain ⟨first, later⟩ := List.forall_mem_cons.mp accepted
    exact .plain (plain token.kind first) (ih later)

/-- The closing bracket itself ends what it closes. -/
theorem Encloses.next {close : Kind} (known : s.peekKind = some close) : s.Encloses close s.next :=
  ⟨s, .refl s, known, rfl⟩

/-- Balanced tokens in front of what a bracket closes are enclosed with it. -/
theorem Nests.encloses {close : Kind} (head : s.Nests s₁) (tail : s₁.Encloses close s₂) :
    s.Encloses close s₂ := by
  obtain ⟨last, nests, known, rfl⟩ := tail
  exact ⟨last, head.trans nests, known, rfl⟩

/-- An opening bracket, what it encloses and the one that closes it are balanced. -/
theorem Encloses.nests {opener close : Kind} (known : s.peekKind = some opener)
    (pair : opener.ClosedBy close) (inside : s.next.Encloses close s₁) : s.Nests s₁ := by
  obtain ⟨last, ⟨inner, advances, balanced⟩, ended, rfl⟩ := inside
  obtain ⟨first, here, rfl⟩ := peek_of_peekKind known
  obtain ⟨closer, there, rfl⟩ := peek_of_peekKind ended
  exact ⟨first :: (inner ++ [closer]), .cons here (advances.concat there),
    .enclosed pair balanced .nil⟩

end State

namespace Grammar

/-- What lies between the states of a phrase: balanced tokens, or what closes the bracket behind
which the phrase is read. -/
def Phrase.Nests (s final : State) : Phrase → Prop
  | .elements close _ _ _ | .arguments close _ | .argumentsFrom close _ => s.Encloses close final
  | .parametersFrom _ => s.Encloses .rightParen final
  | _ => s.Nests final

/-- The token of a parameter is no bracket. -/
theorem nests_of_param {s : State} {param : Param} (declares : s.param? = some param) :
    s.Nests s.next := by
  obtain ⟨token, known, ⟨kind, -⟩ | ⟨kind, -⟩⟩ := State.token_of_param declares <;>
    exact .of_peek known (kind ▸ ⟨rfl, rfl⟩)

/-- The tokens of a phrase are balanced, up to the bracket that it closes. -/
theorem Reads.nests {phrase : Phrase} {s final : State} (reads : Reads phrase s final) :
    phrase.Nests s final := by
  induction reads with
  | expression _ _ head tail | postfixed _ _ _ _ _ _ head tail => exact head.trans tail
  | stop => exact .refl _
  | infixed known _ entry _ _ _ head tail =>
    exact (State.Nests.of_peek known (Kind.plain_of_infix entry)).trans (head.trans tail)
  | ident known kind => exact (State.Nests.of_peek known (kind ▸ ⟨rfl, rfl⟩)).note _
  | number known kind | string known kind | lastIndex known kind | colon known kind
  | ignored known kind | named known kind => exact .of_peek known (kind ▸ ⟨rfl, rfl⟩)
  | unary known entry _ _ ih =>
    exact (State.Nests.of_peek known (Kind.plain_of_unary entry)).trans ih
  | atSign known kind _ ih => exact (State.Nests.of_peek known (kind ▸ ⟨rfl, rfl⟩)).trans ih
  | parens known kind _ ended ih =>
    exact (State.Nests.encloses ih (.next ended)).nests (kind ▸ State.peekKind_of_peek known)
      .parentheses
  | matrix known kind _ ih =>
    exact State.Encloses.nests (kind ▸ State.peekKind_of_peek known) .brackets ih
  | cell known kind _ ih | cellIndex known kind _ ih =>
    exact State.Encloses.nests (kind ▸ State.peekKind_of_peek known) .braces ih
  | call known kind _ ih =>
    exact State.Encloses.nests (kind ▸ State.peekKind_of_peek known) .parentheses ih
  | lambda _ _ _ params body => exact params.trans body
  | close known | noArguments known => exact .next known
  | rowEnd known _ ended _ ih =>
    refine (State.Nests.next known ?_).encloses ih
    rcases ended with rfl | rfl
    · exact ⟨rfl, rfl⟩
    · exact ⟨rfl, rfl⟩
  | comma known _ _ ih => exact (State.Nests.next known ⟨rfl, rfl⟩).encloses ih
  | element _ _ _ _ _ head tail => exact State.Nests.encloses head tail
  | member known kind here name =>
    exact (State.Nests.of_peek known (kind ▸ ⟨rfl, rfl⟩)).trans (.of_peek here (name ▸ ⟨rfl, rfl⟩))
  | dynamic known kind opens _ ended ih =>
    exact (State.Nests.of_peek known (kind ▸ ⟨rfl, rfl⟩)).trans
      ((State.Nests.encloses ih (.next ended)).nests opens .parentheses)
  | transpose => exact .skip fun _ => Kind.plain_of_isMark
  | arguments _ _ ih => exact ih
  | argument _ comma _ head tail =>
    exact (head.trans (.next comma ⟨rfl, rfl⟩)).encloses tail
  | lastArgument _ ended _ ih => exact State.Nests.encloses ih (.next ended)
  | noParameters opens ended => exact State.Encloses.nests opens .parentheses (.next ended)
  | parameters opens _ _ ih => exact State.Encloses.nests opens .parentheses ih
  | parameter declares comma _ ih =>
    exact ((nests_of_param declares).trans (.next comma ⟨rfl, rfl⟩)).encloses ih
  | lastParameter declares ended => exact (nests_of_param declares).encloses (.next ended)

end Grammar

end MatlabFront
