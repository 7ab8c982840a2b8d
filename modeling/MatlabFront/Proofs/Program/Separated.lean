import MatlabFront.Proofs.Expression.Respaced
import MatlabFront.Proofs.Program.Assigned
import MatlabFront.Proofs.Program.Complete

/-!
# Gaps separate the elements of a literal as commas do

Runs of tokens that are elements each make a row with a gap between any two, and a row with a comma
between any two. Both are read as a literal with exactly these elements, as an operand in any place and
as a program of its own. With commas the runs may also stand elsewhere.
-/

namespace MatlabFront

/-- Some tokens are read as a tree: as an operand wherever they stand, and by themselves as a program
that consists of this expression. -/
structure ReadAs (tokens : List Token) (whole : Expr) : Prop where
  operand : ∀ (nesting : Nesting) (s : State) (rest : List Token) (steps : Nat),
    s.rest = tokens ++ rest → 8 * tokens.length ≤ steps →
      ∃ final, Parser.operand steps nesting s = .done whole final ∧ final.rest = rest
  program : ∀ dialect, Program.ofTokens dialect tokens = some (.ok ⟨[.eval whole whole.pos]⟩)

/-- Runs of tokens one after another, with a comma in front of each but the first. -/
inductive CommaJoined : List (List Token) → List Token → Prop where
  | last {run : List Token} : CommaJoined [run] run
  | cons {run joined : List Token} {runs : List (List Token)} {comma : Token} :
    comma.kind = .comma → CommaJoined runs joined → CommaJoined (run :: runs) (run ++ comma :: joined)

variable {form : LiteralForm} {run next tokens joined : List Token} {runs : List (List Token)}
  {row : List Expr} {opening closing : Token}

/-- A run is set off from all tokens that begin with an element from which it is set off. -/
theorem SetOff.append (apart : SetOff run next) (begins : Element.Begins next) (more : List Token) :
    SetOff run (next ++ more) := by
  obtain ⟨first, later, rfl, kinds⟩ := begins
  refine ⟨fun last inside _ head => apart.gap last inside _ head, ?_⟩
  rintro _ ⟨⟩ sign second behind
  obtain ⟨following, later, rfl⟩ : ∃ following more, later = following :: more := by
    refine List.exists_cons_of_ne_nil ?_
    obtain plain | kind | kind | ⟨-, operand⟩ := kinds
    · rcases sign with sign | sign <;> simp [sign, Kind.leftPower?, Kind.postfixOperator?,
        Kind.infixOperator?] at plain
    · simp [kind] at sign
    · simp [kind] at sign
    · exact operand
  exact apart.sign first rfl sign second behind

namespace Row

/-- Elements with a gap between any two make a row. -/
theorem of_gaps (whole : List.Forall₂ (Element form) runs row) (filled : runs ≠ [])
    (settled : ∀ run ∈ runs, NoLastTilde run) (apart : runs.IsChain SetOff) :
    Row form runs.flatten row := by
  induction whole with
  | nil => exact absurd rfl filled
  | @cons run element runs row first later ih =>
    have ends := settled run List.mem_cons_self
    cases later with
    | nil => simpa using Row.last first ends
    | @cons next _ _ _ second _ =>
      rw [List.isChain_cons_cons] at apart
      have behind := fun run inside => settled run (List.mem_cons_of_mem _ inside)
      have begins := (second.read (behind next List.mem_cons_self)).2.1
      rw [List.flatten_cons]
      exact .gap first ends (by simpa using apart.1.append begins _)
        (ih (List.cons_ne_nil _ _) behind apart.2)

/-- Elements with a comma between any two make a row. -/
theorem of_commas (commas : CommaJoined runs joined) (whole : List.Forall₂ (Element form) runs row)
    (settled : ∀ run ∈ runs, NoLastTilde run) : Row form joined row := by
  induction commas generalizing row with
  | last =>
    cases whole with
    | cons first later =>
      cases later
      exact .last first (settled _ List.mem_cons_self)
  | cons kind _ ih =>
    cases whole with
    | cons first later =>
      exact .comma first (settled _ List.mem_cons_self) kind
        (ih later fun run inside => settled run (List.mem_cons_of_mem _ inside))

/-- A literal of one row by itself is read as the expression of a program. -/
theorem program (whole : Row form tokens row) (opens : opening.kind = form.opening)
    (closes : closing.kind = form.closing) (dialect : Dialect) :
    ∃ final, Surface.Reads dialect (.items [.statement (.eval (form.tree [row] opening.pos))])
      (.start (opening :: (tokens ++ [closing]))) final ∧ final.rest = [] := by
  have known : (State.start (opening :: (tokens ++ [closing]))).skipSeparators.rest =
      opening :: (tokens ++ [closing]) := by
    cases form <;>
      simp [State.skipSeparators, State.skip, State.start, opens, LiteralForm.opening, Kind.isSeparator]
  obtain ⟨here, -⟩ := State.peek_of_rest known
  obtain ⟨final, reads, advances⟩ := whole.operand opens closes .outside known
  have left : final.rest = [] := advances.rest_eq (by simpa using known)
  have ended : final.peek = none := List.head?_eq_none_iff.mpr left
  have expression : Grammar.Reads (.expression .outside 0 (form.tree [row] opening.pos))
      (State.start (opening :: (tokens ++ [closing]))).skipSeparators final :=
    .expression reads (.stop fun token next => by simp [ended] at next)
  have skipped : final.skipSeparators.rest = [] := by
    simp [State.skipSeparators, State.skip, left]
  have noCommand : Surface.startsPlain (some opening.kind) = true ∧
      Command.begins (opening :: (tokens ++ [closing])) = false ∧
        opening.kind.isBlockKeyword = false := by
    cases form <;> simp [opens, LiteralForm.opening, Command.begins, Surface.startsPlain,
      Kind.isBlockKeyword]
  refine ⟨final.skipSeparators, .item (State.peekKind_of_peek here) noCommand.2.2 (.statement
    (.eval ?_ (.inr ?_) expression ?_) ?_) (.noItems ?_), skipped⟩
  · rw [State.peekKind_of_peek here]
    exact noCommand.1
  · rw [known]
    exact noCommand.2.1
  · simp [State.peekKind_of_end ended]
  · simp [State.atTerminator, State.peekKind_of_end ended]
  · exact List.head?_eq_none_iff.mpr skipped

/-- A literal of one row is read as an operand in any place, and as a program. -/
theorem readAs (whole : Row form tokens row) (opens : opening.kind = form.opening)
    (closes : closing.kind = form.closing) :
    ReadAs (opening :: (tokens ++ [closing])) (form.tree [row] opening.pos) := by
  refine ⟨fun nesting s rest steps known enough => ?_, fun dialect => ?_⟩
  · obtain ⟨final, reads, advances⟩ := whole.operand opens closes nesting (by simpa using known)
    have left := advances.rest_eq known
    have length := advances.length
    refine ⟨final, reads.accepted ?_, left⟩
    simp only [Grammar.Phrase.Fits, Grammar.Phrase.level]
    omega
  · obtain ⟨final, reads, ended⟩ := whole.program opens closes dialect
    have clean : (opening :: (tokens ++ [closing])).find? (·.kind == .error) = none := by
      refine List.find?_eq_none.mpr fun token inside => ?_
      have brackets : opening.kind ≠ .error ∧ closing.kind ≠ .error := by
        rw [opens, closes]
        cases form <;> decide
      simp only [List.mem_cons, List.mem_append, List.not_mem_nil, or_false] at inside
      obtain rfl | inside | rfl := inside
      · simpa using brackets.1
      · simpa using whole.clean token inside
      · simpa using brackets.2
    simpa [Surface.Item.lower, Surface.Statement.lower] using
      Surface.program_accepted reads ended clean

end Row

/-- A run with the same words does not end with a tilde either. -/
theorem NoLastTilde.respaced (settled : NoLastTilde run) (same : Respaced form run next) :
    NoLastTilde next := by
  obtain ⟨_, _, _, _, -, -, spacing⟩ := same
  have words := spacing.words
  simp only [List.map_cons, List.map_append, List.map_nil, List.cons.injEq] at words
  have kinds := congrArg (List.map Prod.fst) (List.append_inj_left' words.2 rfl)
  rw [List.map_map, List.map_map] at kinds
  intro last inside
  have kind := congrArg List.getLast? kinds
  rw [List.getLast?_map, List.getLast?_map, Option.mem_def.mp inside] at kind
  obtain ⟨origin, there, same⟩ := Option.map_eq_some_iff.mp kind.symm
  have same : origin.kind = last.kind := same
  exact same ▸ settled origin there

/-- Elements with the same words and gaps stand elsewhere, with the same trees apart from positions. -/
theorem Element.respaced_all {respaced : List (List Token)}
    (whole : List.Forall₂ (Element form) runs row) (settled : ∀ run ∈ runs, NoLastTilde run)
    (same : List.Forall₂ (Respaced form) runs respaced) :
    ∃ moved, unplacedAll moved = unplacedAll row ∧ List.Forall₂ (Element form) respaced moved ∧
      ∀ run ∈ respaced, NoLastTilde run := by
  induction whole generalizing respaced with
  | nil =>
    cases same
    exact ⟨[], rfl, .nil, by simp⟩
  | cons first _ ih =>
    cases same with
    | cons one others =>
      have ends := settled _ List.mem_cons_self
      obtain ⟨head, equal, element⟩ := first.respaced ends one
      obtain ⟨tail, equals, elements, behind⟩ :=
        ih (fun run inside => settled run (List.mem_cons_of_mem _ inside)) others
      exact ⟨head :: tail, by simp [equal, equals], .cons element elements,
        List.forall_mem_cons.mpr ⟨ends.respaced one, behind⟩⟩

/-- Gaps separate the elements of a literal as commas do. Some runs of tokens are elements each, with a
gap between any two, and none of them ends with a tilde. One after another between brackets they are read
as the literal of one row that has exactly these elements. With a comma between any two they are read as
the same literal; and so they are when they stand elsewhere, apart from positions. -/
theorem LiteralForm.read_of_gaps (opens : opening.kind = form.opening)
    (closes : closing.kind = form.closing) (filled : runs ≠ [])
    (whole : List.Forall₂ (Element form) runs row) (settled : ∀ run ∈ runs, NoLastTilde run)
    (apart : runs.IsChain SetOff) :
    ReadAs (opening :: (runs.flatten ++ [closing])) (form.tree [row] opening.pos) ∧
    (∀ joined, CommaJoined runs joined →
      ReadAs (opening :: (joined ++ [closing])) (form.tree [row] opening.pos)) ∧
    ∀ respaced joined (opening' closing' : Token), List.Forall₂ (Respaced form) runs respaced →
      CommaJoined respaced joined → opening'.kind = form.opening → closing'.kind = form.closing →
        ∃ moved, unplacedAll moved = unplacedAll row ∧
          ReadAs (opening' :: (joined ++ [closing'])) (form.tree [moved] opening'.pos) := by
  refine ⟨(Row.of_gaps whole filled settled apart).readAs opens closes, fun joined commas =>
    (Row.of_commas commas whole settled).readAs opens closes, ?_⟩
  intro respaced joined opening' closing' same commas opens' closes'
  obtain ⟨moved, equal, elements, ends⟩ := Element.respaced_all whole settled same
  exact ⟨moved, equal, (Row.of_commas commas elements ends).readAs opens' closes'⟩

/-- In `[a' -b @(x) x (1)]` the minus and the parentheses begin elements, though each of them could be an
operator, and the last gap ends the body of the function and the function at once. -/
theorem LiteralForm.read_of_gaps_function :
    let row : List Expr := [.transpose (.ident ⟨"a", ⟨1, 1⟩⟩) "'" ⟨1, 2⟩,
      .unary .minus (.ident ⟨"b", ⟨1, 5⟩⟩) ⟨1, 4⟩,
      .lambda [⟨"x", ⟨1, 9⟩⟩] (.ident ⟨"x", ⟨1, 12⟩⟩) ⟨1, 7⟩,
      .parens (.number "1" ⟨1, 15⟩) ⟨1, 14⟩]
    ReadAs (Token.ofText "[a' -b @(x) x (1)]") (.matrix [row] ⟨1, 0⟩) ∧
      ReadAs (Token.ofText "[a',-b,@(x) x,(1)]") (.matrix [row] ⟨1, 0⟩) ∧
      ∃ moved, unplacedAll moved = unplacedAll row ∧
        ReadAs (Token.ofText "[ a', -b, @(x) x, (1)]") (.matrix [moved] ⟨1, 0⟩) := by
  intro row
  have opens : (⟨.leftBracket, "[", ⟨1, 0⟩⟩ : Token).kind = LiteralForm.matrix.opening := rfl
  have closes (offset : Nat) :
      (⟨.rightBracket, "]", ⟨1, offset⟩⟩ : Token).kind = LiteralForm.matrix.closing := rfl
  have comma (offset : Nat) : (⟨.comma, ",", ⟨1, offset⟩⟩ : Token).kind = .comma := rfl
  -- The runs of the row, from the offsets of their first tokens.
  let token (kind : Kind) (text : String) (offset : Nat) : Token := ⟨kind, text, ⟨1, offset⟩⟩
  let transposed (start : Nat) := [token .ident "a" start, token .transpose "'" (start + 1)]
  let signed (start : Nat) := [token .minus "-" start, token .ident "b" (start + 1)]
  let function (start : Nat) := [token .atSign "@" start, token .leftParen "(" (start + 1),
    token .ident "x" (start + 2), token .rightParen ")" (start + 3), token .ident "x" (start + 5)]
  let enclosed (start : Nat) := [token .leftParen "(" start, token .number "1" (start + 1),
    token .rightParen ")" (start + 2)]
  have element (run : List Token) (whole : Expr) (final : State)
      (read : Parser.expression 20 .elements 0
        (.start (run ++ [⟨.rightBracket, "]", ⟨1, 17⟩⟩])) = .done whole final)
      (left : final.rest = [⟨.rightBracket, "]", ⟨1, 17⟩⟩]) : Element .matrix run whole :=
    ⟨20, _, final, _, [], closes 17, rfl, read, left⟩
  have elements :
      List.Forall₂ (Element .matrix) [transposed 1, signed 4, function 7, enclosed 14] row :=
    .cons (element _ _ _ rfl rfl) (.cons (element _ _ _ rfl rfl)
      (.cons (element _ _ _ rfl rfl) (.cons (element _ _ _ rfl rfl) .nil)))
  have settled : ∀ run ∈ [transposed 1, signed 4, function 7, enclosed 14], NoLastTilde run := by
    simp [token, transposed, signed, function, enclosed, NoLastTilde]
  have apart : [transposed 1, signed 4, function 7, enclosed 14].IsChain SetOff := by
    refine .cons_cons ⟨?_, ?_⟩ (.cons_cons ⟨?_, ?_⟩ (.cons_cons ⟨?_, ?_⟩ (.singleton _))) <;>
      simp [token, transposed, signed, function, enclosed, Token.adjacentTo, Token.stop] <;> decide
  have respaced (run other : List Token)
      (same : SameSpacing (⟨.leftBracket, "[", ⟨1, 100⟩⟩ :: (run ++ [⟨.rightBracket, "]", ⟨1, 100⟩⟩]))
        (⟨.leftBracket, "[", ⟨1, 100⟩⟩ :: (other ++ [⟨.rightBracket, "]", ⟨1, 100⟩⟩]))) :
      Respaced .matrix run other := ⟨_, _, _, _, rfl, rfl, same⟩
  have same : List.Forall₂ (Respaced .matrix) [transposed 1, signed 4, function 7, enclosed 14]
      [transposed 2, signed 6, function 10, enclosed 18] :=
    .cons (respaced _ _ ⟨rfl, by decide⟩) (.cons (respaced _ _ ⟨rfl, by decide⟩)
      (.cons (respaced _ _ ⟨rfl, by decide⟩) (.cons (respaced _ _ ⟨rfl, by decide⟩) .nil)))
  obtain ⟨gaps, commas, elsewhere⟩ :=
    LiteralForm.read_of_gaps opens (closes 17) (List.cons_ne_nil _ _) elements settled apart
  have joined := commas _ (.cons (comma 3) (.cons (comma 6) (.cons (comma 13) .last)))
  obtain ⟨moved, equal, spaced⟩ := elsewhere _ _ _ _ same
    (.cons (comma 4) (.cons (comma 8) (.cons (comma 16) .last))) opens (closes 21)
  have gapTokens : Token.ofText "[a' -b @(x) x (1)]" = ⟨.leftBracket, "[", ⟨1, 0⟩⟩ ::
      ([transposed 1, signed 4, function 7, enclosed 14].flatten ++
        [⟨.rightBracket, "]", ⟨1, 17⟩⟩]) := by decide +kernel
  have commaTokens : Token.ofText "[a',-b,@(x) x,(1)]" = ⟨.leftBracket, "[", ⟨1, 0⟩⟩ ::
      (transposed 1 ++ ⟨.comma, ",", ⟨1, 3⟩⟩ :: (signed 4 ++ ⟨.comma, ",", ⟨1, 6⟩⟩ ::
        (function 7 ++ ⟨.comma, ",", ⟨1, 13⟩⟩ :: enclosed 14)) ++
          [⟨.rightBracket, "]", ⟨1, 17⟩⟩]) := by decide +kernel
  have spacedTokens : Token.ofText "[ a', -b, @(x) x, (1)]" = ⟨.leftBracket, "[", ⟨1, 0⟩⟩ ::
      (transposed 2 ++ ⟨.comma, ",", ⟨1, 4⟩⟩ :: (signed 6 ++ ⟨.comma, ",", ⟨1, 8⟩⟩ ::
        (function 10 ++ ⟨.comma, ",", ⟨1, 16⟩⟩ :: enclosed 18)) ++
          [⟨.rightBracket, "]", ⟨1, 21⟩⟩]) := by decide +kernel
  exact ⟨gapTokens ▸ gaps, commaTokens ▸ joined, moved, equal, spacedTokens ▸ spaced⟩

end MatlabFront
