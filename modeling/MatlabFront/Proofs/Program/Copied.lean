import MatlabFront.Proofs.Expression.Copied
import MatlabFront.Proofs.Expression.Located
import MatlabFront.Proofs.Program.Words

/-!
# Programs in a copy of their tokens

Statements and functions are read from a copy of their tokens as they are read from the tokens. The
words of a command are told apart by gaps wherever they stand, so in the lenient dialect the copy
keeps every token at its position.
-/

namespace MatlabFront

open MatlabFront.Parser

namespace Copy

variable {copy : Copy} {exact : Prop} {dialect : Dialect} {steps more : Nat} {s s' : State}

namespace Carries

/-- The separators that come next are skipped in the copy too. -/
theorem skipSeparators (carries : copy.Carries s s') :
    copy.Carries s.skipSeparators s'.skipSeparators := carries.skip _

/-- Reports take no token, whatever is reported on the two sides. -/
theorem log (carries : copy.Carries s s') (event event' : Event) :
    copy.Carries (s.log event) (s'.log event') := carries.events _ _

/-- A separator comes next in the copy where one comes next in the tokens that are copied. -/
theorem atSeparator (carries : copy.Carries s s') : s'.atSeparator = s.atSeparator := by
  rw [State.atSeparator, carries.peekKind, State.atSeparator]

/-- A statement may end in the copy where it may end in the tokens that are copied. -/
theorem atTerminator (carries : copy.Carries s s') : s'.atTerminator = s.atTerminator := by
  rw [State.atTerminator, carries.peekKind, State.atTerminator]

/-- The header of a `for` is enclosed in the copy where it is in the tokens that are copied. -/
theorem headerEnclosed (carries : copy.Carries s s') : s'.headerEnclosed = s.headerEnclosed := by
  rw [State.headerEnclosed, carries.peekKind, carries.secondKind, carries.thirdKind,
    State.headerEnclosed]

/-- The copy is in a function with the same outputs, moved. -/
theorem outputs (carries : copy.Carries s s') :
    s'.outputs = s.outputs.map (Ident.relocate copy.move) := by
  rw [State.outputs, State.outputs, carries.scope]
  cases s.scope <;> rfl

/-- The copy resumes at the same token. -/
theorem resume (carries : copy.Carries s s') : copy.Carries s.resume s'.resume := by
  unfold State.resume
  rw [carries.peek]
  cases s.peek with
  | none => exact carries
  | some token => exact (carries.log _ _).skip _

/-- Both sides enter a function with the same head, moved. -/
theorem enter (carries : copy.Carries s s') (head : Header) :
    copy.Carries (s.enter head) (s'.enter (head.relocate copy.move)) :=
  ⟨carries.whole, carries.rest, carries.consumed, rfl⟩

/-- Both sides leave a function behind the keyword that closes it, or where they stand. -/
theorem leave (carries : copy.Carries s s') : copy.Carries s.leave s'.leave := by
  have outside : copy.Carries { s with scope := none } { s' with scope := none } :=
    ⟨carries.whole, carries.rest, carries.consumed, rfl⟩
  unfold State.leave
  dsimp only
  rw [outside.peekKind]
  split
  · exact outside.next
  · exact outside

/-- What is read of an expression stands at tokens that are copied. -/
theorem positions {whole : Expr} {s₁ : State} (carries : copy.Carries s s')
    (run : wholeExpression steps s = .done whole s₁) :
    whole.positions ⊆ copy.tokens.map Token.pos := by
  have reads := Grammar.soundAt steps (.expression .outside 0 whole) s s₁ run
  obtain ⟨tokens, advances, ended⟩ := reads.located
  intro pos inside
  obtain ⟨token, among, here⟩ := List.mem_map.mp (ended.located.positions_subset inside)
  have left : token ∈ s.rest := advances.rest ▸ List.mem_append_left _ among
  exact List.mem_map.mpr ⟨token, carries.mem_of_rest left, here⟩

end Carries

section Names

/-- A name that is used follows its copy. -/
theorem Follows.used (carries : copy.Carries s s') (token : Token) :
    copy.Follows exact (Ident.relocate copy.move) (used token s)
      (used (token.relocate copy.move) s') := by
  rw [used_apply, used_apply]
  exact .value (carries.note _) rfl

/-- A name that is demanded and used is there on both sides or on none. -/
theorem Follows.expectUsed (carries : copy.Carries s s') :
    copy.Follows exact (Ident.relocate copy.move) (expectUsed s) (expectUsed s') :=
  (Follows.expect carries .ident).andThen fun token _ _ _ carries => .used carries token

/-- A name that is demanded and declared is there on both sides or on none. -/
theorem Follows.expectDeclared (carries : copy.Carries s s') :
    copy.Follows exact (Ident.relocate copy.move) (expectDeclared s) (expectDeclared s') :=
  (Follows.expect carries .ident).andThen fun _ _ _ _ carries => .pure carries _ rfl

/-- A separator that is demanded comes next on both sides or on none. -/
theorem Follows.expectSeparator (carries : copy.Carries s s') (clause : Clause) :
    copy.Follows exact id (expectSeparator clause s) (expectSeparator clause s') := by
  rw [expectSeparator_apply, expectSeparator_apply, carries.atSeparator]
  split
  · exact .done carries
  · exact .complain carries _

/-- The keyword that closes a block comes next on both sides or on none. -/
theorem Follows.expectEnd (carries : copy.Carries s s') (block : Block) :
    copy.Follows exact id (expectEnd block s) (expectEnd block s') :=
  (Follows.expectOr carries _ _).discard

/-- The names that come next follow their copy. -/
theorem namesFrom_follows (enough : steps ≤ more) (same : exact → steps = more)
    (carries : copy.Carries s s') :
    copy.Follows exact (List.map (Ident.relocate copy.move)) (namesFrom steps s)
      (namesFrom more s') := by
  induction steps generalizing more s s' with
  | zero => exact .exhausted fun exactly => same exactly ▸ rfl
  | succ steps ih =>
    obtain ⟨more, rfl⟩ := Nat.exists_eq_succ_of_ne_zero (Nat.ne_zero_of_lt enough)
    rw [namesFrom_succ, namesFrom_succ, carries.peekKind]
    split
    · refine (Follows.expectUsed carries).bind fun name _ _ _ carries => ?_
      refine (ih (Nat.le_of_succ_le_succ enough) (fun exactly => Nat.succ.inj (same exactly))
        carries).andThen fun names _ _ _ carries => ?_
      exact .pure carries _ rfl
    · exact .value carries rfl

/-- The names of a `global` follow their copy. -/
theorem globalNames_follows (enough : steps ≤ more) (same : exact → steps = more)
    (carries : copy.Carries s s') :
    copy.Follows exact (List.map (Ident.relocate copy.move)) (globalNames steps s)
      (globalNames more s') := by
  refine (Follows.expectUsed carries).andThen fun name _ _ _ carries => ?_
  refine (namesFrom_follows enough same carries).andThen fun names _ _ _ carries => ?_
  exact .pure carries _ rfl

/-- Outputs in brackets follow their copy. -/
theorem bracketedOutputs_follows (enough : steps ≤ more) (same : exact → steps = more)
    (carries : copy.Carries s s') :
    copy.Follows exact (List.map (Ident.relocate copy.move)) (bracketedOutputs steps s)
      (bracketedOutputs more s') := by
  induction steps generalizing more s s' with
  | zero => exact .exhausted fun exactly => same exactly ▸ rfl
  | succ steps ih =>
    obtain ⟨more, rfl⟩ := Nat.exists_eq_succ_of_ne_zero (Nat.ne_zero_of_lt enough)
    have enough := Nat.le_of_succ_le_succ enough
    have same := fun exactly => Nat.succ.inj (same exactly)
    rw [bracketedOutputs_succ, bracketedOutputs_succ, carries.peekKind]
    split
    · exact .value carries.next rfl
    split
    · exact ih enough same carries.next
    · refine (Follows.expectDeclared carries).bind fun name _ _ _ carries => ?_
      refine (ih enough same carries).andThen fun names _ _ _ carries => ?_
      exact .pure carries _ rfl

end Names

section Command

variable (still : copy.move = id)
include still

/-- A copy that moves nothing has the tokens that are copied. -/
theorem relocate_of_still : Token.relocate copy.move = id := by
  rw [still]
  rfl

/-- The words of a command are the same tokens. -/
theorem commandWords_follows (carries : copy.Carries s s') :
    copy.Follows exact id (commandWords s) (commandWords s') := by
  have same := relocate_of_still still
  have rest : s'.rest = s.rest := by rw [carries.rest, same, List.map_id]
  have words := (Command.words_flatten s.rest).symm
  rw [commandWords_apply, commandWords_apply, rest]
  refine .done (carries.advance ⟨words, rfl⟩ ?_ ?_ carries.scope)
  · rw [same, List.map_id]
  · rw [same, List.map_id]

/-- The words that become targets are the same, and each of them is a token or begins with one. -/
theorem loadTargets_follows {fallback : Position} {words : List (List Token)}
    (known : ∃ token ∈ copy.tokens, fallback = token.pos)
    (among : ∀ word ∈ words, ∀ token ∈ word, token ∈ copy.tokens) (carries : copy.Carries s s') :
    copy.Follows exact (List.map (Target.relocate copy.move)) (loadTargets fallback words s)
      (loadTargets fallback words s') := by
  have refused {α : Type} {image : α → α} {flaw : Flaw} {pos : Position} {s s' : State}
      (here : ∃ token ∈ copy.tokens, pos = token.pos) :
      copy.Follows exact image (reject flaw pos s) (reject flaw pos s') := by
    have follows := @Follows.reject copy exact α image s s' flaw pos here
    rwa [still] at follows
  induction words generalizing s s' with
  | nil => exact .pure carries _ rfl
  | cons word words ih =>
    have within := among word List.mem_cons_self
    have rest (target : Target) (s s' : State) (carries : copy.Carries s s') :
        copy.Follows exact (List.map (Target.relocate copy.move))
          ((do return target :: (← loadTargets fallback words) : Parser (List Target)) s)
          ((do return target.relocate copy.move :: (← loadTargets fallback words) :
            Parser (List Target)) s') := by
      have later := fun word inside => among word (List.mem_cons_of_mem _ inside)
      exact (ih later carries).andThen fun targets _ _ _ carries => .pure carries _ (by simp)
    match word with
    | [] => exact (refused known).andThen fun target s s' _ carries => rest target s s' carries
    | [token] =>
      by_cases name : token.kind = .ident
      · have copied := @Follows.used copy exact s s' carries token
        rw [relocate_of_still still] at copied
        simp only [loadTargets, if_pos name]
        exact copied.andThen fun name s s' _ carries => rest (.var name) s s' carries
      · simp only [loadTargets, if_neg name]
        exact (refused ⟨token, within token List.mem_cons_self, rfl⟩).andThen
          fun target s s' _ carries => rest target s s' carries
    | first :: second :: more =>
      exact (refused ⟨first, within first List.mem_cons_self, rfl⟩).andThen
        fun target s s' _ carries => rest target s s' carries

/-- A command is the same call. -/
theorem command_follows (carries : copy.Carries s s') :
    copy.Follows exact (Stmt.relocate copy.move) (command s) (command s') := by
  have statement : Stmt.relocate copy.move = id := by rw [still, funext Stmt.relocate_id]; rfl
  have target : Target.relocate copy.move = id := by rw [still, funext Target.relocate_id]; rfl
  have name : Ident.relocate copy.move = id := by rw [still]; rfl
  rw [statement]
  refine (Follows.expectUsed carries).andThen fun callee s₁ s₁' run words => ?_
  obtain ⟨token, here, -, known, -⟩ := expectUsed_eq_done.mp run
  have fallback : ∃ token ∈ copy.tokens, callee.pos = token.pos :=
    ⟨token, carries.mem_of_rest (State.rest_of_peek here ▸ List.mem_cons_self), known ▸ rfl⟩
  rw [name, id]
  refine (commandWords_follows still words).andThen fun found s₂ s₂' taken carries => ?_
  have among : ∀ word ∈ found, ∀ token ∈ word, token ∈ copy.tokens := by
    intro word inside token within
    rw [commandWords_apply] at taken
    obtain ⟨rfl, -⟩ := Outcome.done.inj taken
    have flat : token ∈ (Command.words s₁.rest).1.flatten := List.mem_flatten_of_mem inside within
    exact words.mem_of_rest (Command.words_flatten s₁.rest ▸ List.mem_append_left _ flat)
  refine (Follows.report carries _ _).andThen fun _ _ _ _ carries => ?_
  match found with
  | [] | [_] => exact .pure carries _ rfl
  | file :: first :: later =>
    dsimp only [id]
    by_cases loads : callee.name = "load"
    · rw [if_pos loads]
      refine (loadTargets_follows still fallback
        (fun word inside => among word (List.mem_cons_of_mem _ inside)) carries).andThen
          fun targets _ _ _ carries => ?_
      exact .pure carries _ (by simp [target])
    · rw [if_neg loads]
      exact .pure carries _ rfl

end Command

/-- What is read of statements in a copy follows what is read of them in its tokens. -/
structure FollowsStatements (copy : Copy) (exact : Prop) (dialect : Dialect) (steps more : Nat) :
    Prop where
  block {s s' : State} (ends : Kind → Bool) : copy.Carries s s' →
    copy.Follows exact (List.map (Stmt.relocate copy.move)) (block steps dialect ends s)
      (block more dialect ends s')
  statement {s s' : State} : copy.Carries s s' →
    copy.Follows exact (List.map (Stmt.relocate copy.move)) (statement steps dialect s)
      (statement more dialect s')
  openStatement {s s' : State} : copy.Carries s s' →
    copy.Follows exact (List.map (Stmt.relocate copy.move)) (openStatement steps dialect s)
      (openStatement more dialect s')
  elseBranch {s s' : State} : copy.Carries s s' →
    copy.Follows exact (Else.relocate copy.move) (elseBranch steps dialect s)
      (elseBranch more dialect s')
  cases {s s' : State} : copy.Carries s s' →
    copy.Follows exact
      (fun chain => (chain.1.map (CaseClause.relocate copy.move),
        chain.2.map (List.map (Stmt.relocate copy.move))))
      (cases steps dialect s) (cases more dialect s')

section Expressions

variable (expressions : copy.FollowsExpressions exact steps more) (carries : copy.Carries s s')
include expressions carries

/-- An expression outside of all brackets follows its copy. -/
theorem wholeExpression_follows :
    copy.Follows exact (Expr.relocate copy.move) (wholeExpression steps s)
      (wholeExpression more s') :=
  expressions.expression .outside 0 carries .outside

/-- Behind a malformed condition the same tokens are read over. -/
theorem ifCondition_follows :
    copy.Follows exact (Expr.relocate copy.move) (ifCondition steps dialect s)
      (ifCondition more dialect s') := by
  rw [ifCondition_apply, ifCondition_apply]
  refine (wholeExpression_follows expressions carries).bind fun condition s₁ s₁' _ carries => ?_
  rw [carries.atSeparator]
  split
  · exact .done carries
  · rw [resynchronize_apply, resynchronize_apply]
    cases dialect with
    | strict => exact .complain carries _
    | matlab => exact .value carries.resume rfl

/-- An assignment that is refused is refused at a token of it. -/
theorem assignmentOrExpression_follows :
    copy.Follows exact (Stmt.relocate copy.move) (assignmentOrExpression steps s)
      (assignmentOrExpression more s') := by
  rw [assignmentOrExpression_apply, assignmentOrExpression_apply]
  refine (wholeExpression_follows expressions carries).bind fun left s₁ s₁' run carries₁ => ?_
  cases known : s₁.peek with
  | none =>
    rw [carries₁.peek_of_end known]
    exact .value carries₁ (by simp)
  | some token =>
    rw [carries₁.peek_of known]
    simp only [Token.relocate_kind, Token.relocate_pos]
    split
    · refine (wholeExpression_follows expressions carries₁.next).bind
        fun value s₂ s₂' later carries₂ => ?_
      unfold Parser.ofExcept
      rw [Assignment.statement_relocate (.behind copy.whole)]
      cases made : Assignment.statement left value token.pos with
      | ok written => exact .done carries₂
      | error failure =>
        refine .failed ?_
        obtain ⟨flaw, pos, rfl, inside⟩ := Assignment.invalidTarget_of_statement made
        have among : pos ∈ copy.tokens.map Token.pos := by
          obtain one | other := List.mem_append.mp inside
          · exact carries.positions run one
          · exact carries₁.next.positions later other
        obtain ⟨token, copied, here⟩ := List.mem_map.mp among
        exact ⟨token, copied, here.symm⟩
    · exact .value carries₁ (by simp)

/-- A statement without a keyword follows its copy. Where it can be a command nothing may be moved,
because words are told apart by the places they stand at. -/
theorem plainStatement_follows (still : dialect = .matlab → copy.move = id) :
    copy.Follows exact (Stmt.relocate copy.move) (plainStatement steps dialect s)
      (plainStatement more dialect s') := by
  rw [plainStatement_apply, plainStatement_apply]
  cases dialect with
  | strict => exact assignmentOrExpression_follows expressions carries
  | matlab =>
    have same : s'.rest = s.rest := by
      rw [carries.rest, relocate_of_still (still rfl), List.map_id]
    simp only [same]
    split
    · exact command_follows (still rfl) carries
    · exact assignmentOrExpression_follows expressions carries

/-- The header of a `for` follows its copy. -/
theorem forHeader_follows :
    copy.Follows exact (fun head => (head.1.relocate copy.move, head.2.relocate copy.move))
      (forHeader steps s) (forHeader more s') := by
  have front : copy.Carries (if s.headerEnclosed then s.next else s)
      (if s.headerEnclosed then s'.next else s') := by
    split
    · exact carries.next
    · exact carries
  rw [forHeader_apply, forHeader_apply, carries.headerEnclosed]
  refine (Follows.expectUsed front).bind fun var _ _ _ carries => ?_
  refine (Follows.expect carries _).discard.andThen fun _ _ _ _ carries => ?_
  refine (wholeExpression_follows expressions carries).andThen fun range _ _ _ carries => ?_
  split
  · refine (Follows.expect carries _).discard.andThen fun _ _ _ _ carries => ?_
    refine (Follows.expectSeparator carries _).andThen fun _ _ _ _ carries => ?_
    exact .pure carries _ rfl
  · refine (Follows.expectSeparator carries _).andThen fun _ _ _ _ carries => ?_
    exact .pure carries _ rfl

end Expressions

section Statements

variable (expressions : copy.FollowsExpressions exact steps more)
  (follows : copy.FollowsStatements exact dialect steps more) (carries : copy.Carries s s')

include follows carries in
/-- A block follows its copy when its statements do with a step less. -/
theorem block_follows (ends : Kind → Bool) :
    copy.Follows exact (List.map (Stmt.relocate copy.move)) (block (steps + 1) dialect ends s)
      (block (more + 1) dialect ends s') := by
  have skipped := carries.skipSeparators
  rw [block_succ, block_succ, skipped.peekKind]
  cases s.skipSeparators.peekKind with
  | none => exact .value skipped rfl
  | some kind =>
    dsimp only
    split
    · exact .value skipped rfl
    split
    · exact .complain skipped _
    split
    · exact .complain skipped _
    · refine (follows.statement skipped).bind fun first _ _ _ carries => ?_
      refine (follows.block ends carries).andThen fun later _ _ _ carries => ?_
      exact .pure carries _ (List.map_append ..).symm

include follows carries in
/-- A statement with what ends it follows its copy. -/
theorem statement_follows :
    copy.Follows exact (List.map (Stmt.relocate copy.move)) (statement (steps + 1) dialect s)
      (statement (more + 1) dialect s') := by
  rw [statement_succ, statement_succ]
  refine (follows.openStatement carries).bind fun statements _ _ _ carries => ?_
  rw [carries.atTerminator]
  split
  · exact .done carries
  · exact .complain carries _

include expressions follows carries in
/-- What stands behind the first keyword of a switch is followed. -/
theorem switch_follows :
    copy.Follows exact (List.map (Stmt.relocate copy.move))
      ((wholeExpression steps s).bind fun subject => do
        expectSeparator .switchSubject
        let chain ← cases steps dialect
        expectEnd .switchBlock
        match chain.1 with
        | [] => pure ()
        | first :: _ => report (.switchLowered first.pos.line)
        return (CaseChain.lower subject (.ofClauses chain.1 chain.2)).statements)
      ((wholeExpression more s').bind fun subject => do
        expectSeparator .switchSubject
        let chain ← cases more dialect
        expectEnd .switchBlock
        match chain.1 with
        | [] => pure ()
        | first :: _ => report (.switchLowered first.pos.line)
        return (CaseChain.lower subject (.ofClauses chain.1 chain.2)).statements) := by
  refine (wholeExpression_follows expressions carries).bind fun subject _ _ _ carries => ?_
  refine (Follows.expectSeparator carries _).andThen fun _ _ _ _ carries => ?_
  refine (follows.cases carries).andThen fun chain _ _ _ carries => ?_
  refine (Follows.expectEnd carries _).andThen fun _ _ _ _ carries => ?_
  obtain ⟨clauses, otherwise⟩ := chain
  have lowered := @CaseChain.relocate_statements copy.move subject clauses otherwise
  cases clauses with
  | nil => exact .pure carries _ lowered.symm
  | cons first clauses =>
    exact (Follows.report carries _ _).andThen fun _ _ _ _ carries =>
      .pure carries _ lowered.symm

include expressions follows carries in
/-- A statement follows its copy when its blocks do with a step less. -/
theorem openStatement_follows (still : dialect = .matlab → copy.move = id) (enough : steps ≤ more)
    (same : exact → steps = more) :
    copy.Follows exact (List.map (Stmt.relocate copy.move)) (openStatement (steps + 1) dialect s)
      (openStatement (more + 1) dialect s') := by
  have plain (starts : Surface.startsPlain s.peekKind = true) :
      copy.Follows exact (List.map (Stmt.relocate copy.move))
        (openStatement (steps + 1) dialect s) (openStatement (more + 1) dialect s') := by
    rw [openStatement_of_plain starts, openStatement_of_plain (carries.peekKind ▸ starts)]
    refine (plainStatement_follows expressions carries still).bind fun written _ _ _ carries => ?_
    exact .pure carries _ rfl
  cases known : s.peek with
  | none => exact plain (by rw [State.peekKind_of_end known]; rfl)
  | some token =>
    by_cases starts : Surface.startsPlain s.peekKind = true
    · exact plain starts
    rw [State.peekKind_of_peek known] at starts
    have behind := carries.next
    rw [openStatement_of_peek known, openStatement_of_peek (carries.peek_of known)]
    simp only [Token.relocate_kind, Token.relocate_pos]
    cases kind : token.kind with
    | ifKeyword =>
      refine (ifCondition_follows expressions behind).bind fun condition _ _ _ carries => ?_
      refine (follows.block _ carries).andThen fun body _ _ _ carries => ?_
      refine (follows.elseBranch carries).andThen fun otherwise _ _ _ carries => ?_
      refine (Follows.expectEnd carries _).andThen fun _ _ _ _ carries => ?_
      exact .pure carries _ (by simp)
    | whileKeyword =>
      refine (wholeExpression_follows expressions behind).bind fun condition _ _ _ carries => ?_
      refine (Follows.expectSeparator carries _).andThen fun _ _ _ _ carries => ?_
      refine (follows.block _ carries).andThen fun body _ _ _ carries => ?_
      refine (Follows.expectEnd carries _).andThen fun _ _ _ _ carries => ?_
      exact .pure carries _ (by simp)
    | forKeyword =>
      refine (forHeader_follows expressions behind).bind fun head _ _ _ carries => ?_
      refine (follows.block _ carries).andThen fun body _ _ _ carries => ?_
      refine (Follows.expectEnd carries _).andThen fun _ _ _ _ carries => ?_
      exact .pure carries _ (by simp)
    | switchKeyword => exact switch_follows expressions follows behind
    | tryKeyword =>
      refine (follows.block _ behind).bind fun body _ _ _ carries => ?_
      have ended (handler : List Stmt) (s s' : State) (carries : copy.Carries s s') :
          copy.Follows exact (List.map (Stmt.relocate copy.move))
            ((do
              expectEnd .tryBlock
              return [.tryCatch body handler token.pos] : Parser (List Stmt)) s)
            ((do
              expectEnd .tryBlock
              return [.tryCatch (body.map (Stmt.relocate copy.move))
                (handler.map (Stmt.relocate copy.move)) (copy.move token.pos)] :
              Parser (List Stmt)) s') := by
        refine (Follows.expectEnd carries _).andThen fun _ _ _ _ carries => ?_
        exact .pure carries _ (by simp)
      simp only [bind_apply, consume_apply, carries.peekKind]
      split
      · exact (follows.block _ carries.next).bind fun handler s s' _ carries =>
          ended handler s s' carries
      · exact ended [] _ _ carries
    | globalKeyword =>
      refine (globalNames_follows enough same behind).bind fun names _ _ _ carries => ?_
      exact .pure carries _ (by simp)
    | breakKeyword | continueKeyword => exact .value behind (by simp)
    | returnKeyword => exact .value behind (by simp [carries.outputs])
    | _ => exact absurd (by rw [kind]; rfl) starts

include expressions follows carries in
/-- What follows the body of an `if` follows its copy when its blocks do with a step less. -/
theorem elseBranch_follows :
    copy.Follows exact (Else.relocate copy.move) (elseBranch (steps + 1) dialect s)
      (elseBranch (more + 1) dialect s') := by
  have none (noElseIf : s.peekKind ≠ some .elseIfKeyword)
      (noElse : s.peekKind ≠ some .elseKeyword) :
      copy.Follows exact (Else.relocate copy.move) (elseBranch (steps + 1) dialect s)
        (elseBranch (more + 1) dialect s') := by
    rw [elseBranch_of_ne noElseIf noElse,
      elseBranch_of_ne (carries.peekKind ▸ noElseIf) (carries.peekKind ▸ noElse)]
    exact .value carries (by simp)
  cases known : s.peek with
  | none =>
    have ended := State.peekKind_of_end known
    exact none (by simp [ended]) (by simp [ended])
  | some token =>
    have here := State.peekKind_of_peek known
    by_cases elseIf : token.kind = .elseIfKeyword
    · rw [elseBranch_of_peek known, elseBranch_of_peek (carries.peek_of known)]
      simp only [Token.relocate_kind, Token.relocate_pos, elseIf]
      refine (wholeExpression_follows expressions carries.next).bind
        fun condition _ _ _ carries => ?_
      refine (Follows.expectSeparator carries _).andThen fun _ _ _ _ carries => ?_
      refine (follows.block _ carries).andThen fun body _ _ _ carries => ?_
      refine (follows.elseBranch carries).andThen fun otherwise _ _ _ carries => ?_
      exact .pure carries _ (by simp)
    by_cases last : token.kind = .elseKeyword
    · rw [elseBranch_of_peek known, elseBranch_of_peek (carries.peek_of known)]
      simp only [Token.relocate_kind, last]
      refine (follows.block _ carries.next).bind fun body _ _ _ carries => ?_
      exact .pure carries _ (by simp)
    · exact none (by simpa [here] using elseIf) (by simpa [here] using last)

include expressions follows carries in
/-- The cases of a switch follow their copy when their bodies do with a step less. -/
theorem cases_follows :
    copy.Follows exact
      (fun chain => (chain.1.map (CaseClause.relocate copy.move),
        chain.2.map (List.map (Stmt.relocate copy.move))))
      (cases (steps + 1) dialect s) (cases (more + 1) dialect s') := by
  have skipped := carries.skipSeparators
  have none (noCase : s.skipSeparators.peekKind ≠ some .caseKeyword)
      (noOtherwise : s.skipSeparators.peekKind ≠ some .otherwiseKeyword) :
      copy.Follows exact
        (fun chain => (chain.1.map (CaseClause.relocate copy.move),
          chain.2.map (List.map (Stmt.relocate copy.move))))
        (cases (steps + 1) dialect s) (cases (more + 1) dialect s') := by
    rw [cases_of_ne noCase noOtherwise,
      cases_of_ne (skipped.peekKind ▸ noCase) (skipped.peekKind ▸ noOtherwise)]
    exact .value skipped rfl
  cases known : s.skipSeparators.peek with
  | none =>
    have ended := State.peekKind_of_end known
    exact none (by simp [ended]) (by simp [ended])
  | some token =>
    have here := State.peekKind_of_peek known
    by_cases option : token.kind = .caseKeyword
    · rw [cases_of_peek known, cases_of_peek (skipped.peek_of known)]
      simp only [Token.relocate_kind, Token.relocate_pos, option]
      refine (wholeExpression_follows expressions skipped.next).bind fun value _ _ _ carries => ?_
      refine (Follows.expectSeparator carries _).andThen fun _ _ _ _ carries => ?_
      refine (follows.block _ carries).andThen fun body _ _ _ carries => ?_
      refine (follows.cases carries).andThen fun chain _ _ _ carries => ?_
      exact .pure carries _ (by simp)
    by_cases last : token.kind = .otherwiseKeyword
    · rw [cases_of_peek known, cases_of_peek (skipped.peek_of known)]
      simp only [Token.relocate_kind, last]
      refine (follows.block _ skipped.next).bind fun body _ _ _ carries => ?_
      exact .pure carries _ rfl
    · exact none (by simpa [here] using option) (by simpa [here] using last)

end Statements

/-- A parse of statements is followed in every copy with the same gaps in literals, in the lenient
dialect if it keeps all positions. -/
theorem followsStatements (faithful : copy.Faithful) (still : dialect = .matlab → copy.move = id)
    (enough : steps ≤ more) (same : exact → steps = more) :
    copy.FollowsStatements exact dialect steps more := by
  induction steps generalizing more with
  | zero =>
    exact {
      block := fun _ _ => .exhausted fun exactly => (same exactly) ▸ rfl
      statement := fun _ => .exhausted fun exactly => (same exactly) ▸ rfl
      openStatement := fun _ => .exhausted fun exactly => (same exactly) ▸ rfl
      elseBranch := fun _ => .exhausted fun exactly => (same exactly) ▸ rfl
      cases := fun _ => .exhausted fun exactly => (same exactly) ▸ rfl }
  | succ steps ih =>
    obtain ⟨more, rfl⟩ := Nat.exists_eq_succ_of_ne_zero (Nat.ne_zero_of_lt enough)
    have enough := Nat.le_of_succ_le_succ enough
    have same := fun exactly => Nat.succ.inj (same exactly)
    have expressions := followsExpressions faithful enough same
    have follows := ih enough same
    exact {
      block := fun ends carries => block_follows follows carries ends
      statement := fun carries => statement_follows follows carries
      openStatement := fun carries =>
        openStatement_follows expressions follows carries still enough same
      elseBranch := fun carries => elseBranch_follows expressions follows carries
      cases := fun carries => cases_follows expressions follows carries }

section Functions

variable (faithful : copy.Faithful) (still : dialect = .matlab → copy.move = id)
  (enough : steps ≤ more) (same : exact → steps = more) (carries : copy.Carries s s')
include enough same carries

/-- The outputs of a function follow their copy. -/
theorem functionOutputs_follows :
    copy.Follows exact (List.map (Ident.relocate copy.move)) (functionOutputs steps s)
      (functionOutputs more s') := by
  rw [functionOutputs_apply, functionOutputs_apply, carries.peekKind, carries.secondKind]
  split
  · refine (bracketedOutputs_follows enough same carries.next).bind fun outputs _ _ _ carries => ?_
    refine (Follows.expect carries _).discard.andThen fun _ _ _ _ carries => ?_
    exact .pure carries _ rfl
  split
  · refine (Follows.expectDeclared carries).bind fun output _ _ _ carries => ?_
    exact .value carries.next rfl
  · exact .value carries rfl

/-- The head of a function follows its copy. -/
theorem functionHead_follows (pos : Position) :
    copy.Follows exact (Header.relocate copy.move) (functionHead steps pos s)
      (functionHead more (copy.move pos) s') := by
  rw [functionHead_apply, functionHead_apply]
  refine (functionOutputs_follows enough same carries).bind fun outputs _ _ _ carries => ?_
  refine (Follows.expectDeclared carries).bind fun name s₂ s₂' _ carries => ?_
  have params : copy.Follows exact (List.map (Param.relocate copy.move))
      (if s₂.peekKind = some .leftParen then parameters steps s₂ else .done [] s₂)
      (if s₂'.peekKind = some .leftParen then parameters more s₂' else .done [] s₂') := by
    rw [carries.peekKind]
    split
    · exact parameters_follows enough same carries
    · exact .value carries rfl
  exact params.bind fun params _ _ _ carries => .pure carries _ rfl

include faithful still

/-- A function follows its copy. -/
theorem function_follows (pos : Position) :
    copy.Follows exact (Function.relocate copy.move) (function steps dialect pos s)
      (function more dialect (copy.move pos) s') := by
  rw [function_apply, function_apply]
  refine (functionHead_follows enough same carries pos).bind fun head _ _ _ carries => ?_
  refine ((followsStatements faithful still enough same).block _ (carries.enter head)).bind
    fun body s₂ s₂' _ carries => ?_
  refine .value (carries.leave.log _ _) ?_
  rw [Function.relocate_close, carries.scope]
  cases s₂.scope <;> rfl

/-- The top of a program follows its copy. -/
theorem topLevel_follows :
    copy.Follows exact (List.map (Stmt.relocate copy.move)) (topLevel steps dialect s)
      (topLevel more dialect s') := by
  induction steps generalizing more s s' with
  | zero => exact .exhausted fun exactly => (same exactly) ▸ rfl
  | succ steps ih =>
    obtain ⟨more, rfl⟩ := Nat.exists_eq_succ_of_ne_zero (Nat.ne_zero_of_lt enough)
    have enough := Nat.le_of_succ_le_succ enough
    have same := fun exactly => Nat.succ.inj (same exactly)
    have skipped := carries.skipSeparators
    rw [topLevel_succ, topLevel_succ, skipped.peek]
    cases s.skipSeparators.peek with
    | none => exact .value skipped rfl
    | some token =>
      simp only [Option.map_some, Token.relocate_kind, Token.relocate_pos]
      split
      · refine (function_follows faithful still enough same skipped.next token.pos).bind
          fun first _ _ _ carries => ?_
        refine (ih enough same carries).andThen fun later _ _ _ carries => ?_
        exact .pure carries _ (by simp)
      split
      · exact .complain skipped _
      · refine ((followsStatements faithful still enough same).statement skipped).bind
          fun first _ _ _ carries => ?_
        refine (ih enough same carries).andThen fun later _ _ _ carries => ?_
        exact .pure carries _ (List.map_append ..).symm

end Functions

/-- A parse can be started in a copy. -/
theorem Carries.start (copy : Copy) (events : List Event) :
    copy.Carries (.start copy.tokens)
      ⟨copy.front, copy.tokens.map (Token.relocate copy.move), none, events⟩ :=
  ⟨rfl, rfl, rfl, rfl⟩

/-- The copy of the first token of a kind is the first token of the kind in the copy. -/
theorem find_relocate (move : Position → Position) (tokens : List Token) (kind : Kind) :
    (tokens.map (Token.relocate move)).find? (·.kind == kind) =
      (tokens.find? (·.kind == kind)).map (Token.relocate move) := by
  have kinds : (fun token : Token => token.kind == kind) ∘ Token.relocate move =
    fun token => token.kind == kind := rfl
  rw [List.find?_map, kinds]

end Copy

/-- Without tokens that are errors a program is what is read at its top. -/
theorem Program.ofTokens_of_clean {dialect : Dialect} {tokens : List Token}
    (clean : tokens.find? (·.kind == .error) = none) :
    Program.ofTokens dialect tokens =
      (topLevel (steps tokens) dialect (.start tokens)).result.map (Except.map Program.mk) := by
  simp only [Program.ofTokens, Reading.ofTokens, clean, program, bind_apply]
  change (Reading.ofOutcome ((topLevel (steps tokens) dialect (.start tokens)).bind _)).result = _
  cases topLevel (steps tokens) dialect (.start tokens) <;> rfl

/-- A token that is an error is reported before anything is read. -/
theorem Program.ofTokens_of_error {dialect : Dialect} {tokens : List Token} {bad : Token}
    (found : tokens.find? (·.kind == .error) = some bad) :
    Program.ofTokens dialect tokens =
      some (.error (.syntaxFault (.invalidToken bad.text) (some bad) bad.pos)) := by
  simp only [Program.ofTokens, Reading.ofTokens, found]

/-- Tokens at other positions are the same program at these positions, as long as the same tokens
of literals are apart. In the lenient dialect they have to stay where they are. -/
theorem Program.ofTokens_relocate {dialect : Dialect} {tokens : List Token}
    {move : Position → Position} (faithful : (Copy.mk tokens move []).Faithful)
    (still : dialect = .matlab → move = id) :
    Program.ofTokens dialect (tokens.map (Token.relocate move)) =
      (Program.ofTokens dialect tokens).map (relocateResult move
        (.behind (tokens.map (Token.relocate move))) (Program.relocate move)) := by
  have first := Copy.find_relocate move tokens .error
  cases found : tokens.find? (·.kind == .error) with
  | some bad =>
    rw [found] at first
    rw [ofTokens_of_error found, ofTokens_of_error first]
    rfl
  | none =>
    rw [found] at first
    have enough : steps (tokens.map (Token.relocate move)) = steps tokens := by
      simp only [steps, List.length_map]
    have follows := @Copy.topLevel_follows (Copy.mk tokens move []) True dialect
      (steps tokens) (steps tokens) _ _ faithful still (Nat.le_refl _) (fun _ => rfl)
      (.start _ [])
    have result := follows.result_eq trivial
    rw [ofTokens_of_clean found, ofTokens_of_clean first, enough, State.start, result,
      Option.map_map, Option.map_map]
    congr 1
    funext outcome
    cases outcome with
    | ok body => simp [relocateResult, Except.map]
    | error failure => rfl

/-- The failure of a parse names one of the tokens, or the end of the input. -/
theorem Program.within_of_refused {dialect : Dialect} {tokens : List Token} {failure : Failure}
    (refused : Program.ofTokens dialect tokens = some (.error failure)) :
    failure.Within tokens := by
  cases found : tokens.find? (·.kind == .error) with
  | some bad =>
    rw [ofTokens_of_error found] at refused
    obtain rfl := Except.error.inj (Option.some.inj refused)
    exact ⟨List.mem_of_find?_eq_some found, rfl⟩
  | none =>
    rw [ofTokens_of_clean found] at refused
    have same : (Copy.mk tokens id []).Faithful := fun _ _ _ _ _ _ => rfl
    have follows := @Copy.topLevel_follows (Copy.mk tokens id []) True dialect
      (steps tokens) (steps tokens) _ _ same (fun _ => rfl) (Nat.le_refl _) (fun _ => rfl)
      (.start _ [])
    cases outcome : (topLevel (steps tokens) dialect (.start tokens)).result with
    | none => simp [outcome] at refused
    | some result =>
      cases result with
      | ok body => simp [outcome, Except.map] at refused
      | error other =>
        obtain rfl : other = failure := by simpa [outcome, Except.map] using refused
        exact follows.within outcome

end MatlabFront
