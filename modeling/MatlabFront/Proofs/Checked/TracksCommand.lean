import MatlabFront.Proofs.Checked.Program
import MatlabFront.Proofs.Checked.TracksExpression

/-!
# Readers of commands track the parser

Looking ahead for a command compares indices that lie within the tokens, and a word that has a
length has a last token. The words are read token by token, and as many uses of names can be counted
behind them as there are words.
-/

namespace MatlabFront

namespace Command

/-- What is seen ahead ends within the tokens, and further on exactly if there are words. -/
theorem stop_of_lookAhead (tokens : List Token) (last : Token) (index : Nat) :
    ∀ ahead, lookAhead tokens last index = some ahead → index ≤ tokens.length →
      ahead.stop ≤ tokens.length ∧ index ≤ ahead.stop ∧
        (ahead.words.isEmpty = true ↔ ahead.stop = index) := by
  fun_induction lookAhead tokens last index with
  | case1 last index count empty =>
    rintro _ ⟨⟩ inside
    exact ⟨inside, Nat.le_refl _, by simp⟩
  | case2 | case3 => rintro _ ⟨⟩
  | case4 last index count filled first final there here gap later found ih =>
    rintro _ ⟨⟩ inside
    have fits := wordLength_le (tokens.drop index)
    rw [List.length_drop] at fits
    obtain ⟨within, further, -⟩ := ih later found (by omega)
    have beyond : index < later.stop := by omega
    exact ⟨within, Nat.le_of_lt beyond, by simpa using Nat.ne_of_gt beyond⟩
  | case5 last index count filled ended =>
    rintro _ ⟨⟩ inside
    exact ⟨inside, Nat.le_refl _, by simp⟩

/-- Behind a name comes a command if words are seen ahead that end the statement. -/
theorem comesNext_cons (name : Token) (rest : List Token) :
    comesNext (name :: rest) = (name.kind == .ident &&
      (lookAhead (name :: rest) name 1).elim false fun ahead =>
        !ahead.words.isEmpty && endsStatement ((name :: rest).drop ahead.stop)) := by
  rw [comesNext]
  cases lookAhead (name :: rest) name 1 <;> rfl

end Command

namespace Parser

/-- What a name and the words behind it come to. -/
def commandOf (callee : Ident) (found : List (List Token)) : Parser Stmt := do
  match found with
  | file :: target :: more =>
    if callee.name = "load" then
      let targets ← loadTargets callee.pos (target :: more)
      return .call
        (.mk (.ident callee) [Command.argument callee.pos file] (some targets) callee.pos)
    else
      return .call (.mk (.ident callee) (found.map (Command.argument callee.pos)) none callee.pos)
  | _ =>
    return .call (.mk (.ident callee) (found.map (Command.argument callee.pos)) none callee.pos)

/-- A command is its name, its words, and what they come to. -/
theorem command_eq_commandOf :
    command = (do
      let callee ← expectUsed
      let found ← commandWords
      report (.command callee.name found.length)
      commandOf callee found : Parser Stmt) := rfl

end Parser

namespace Checked

namespace Stands

variable {c : Cursor} {s : State} (stands : Stands c s)
include stands

/-- The length of a word is counted up to the token that does not continue it. -/
theorem wordLengthFrom_apply {start length fuel : Nat} {last : Token} (inTokens : last ∈ c.tokens)
    (inside : start + length ≤ s.rest.length) (enough : s.rest.length < start + length + fuel) :
    wordLengthFrom start last length fuel c =
      .done (length + Command.tailLength last (s.rest.drop (start + length))) c := by
  have room := stands.representable.length
  have whole := stands.length_eq
  induction fuel generalizing last length with
  | zero => omega
  | succ fuel ih =>
    rw [wordLengthFrom, bind_apply, machineWord_apply (by omega), Verdict.bind_done, bind_apply,
      stands.peekAt_apply (by omega), Verdict.bind_done]
    cases found : s.rest[start + length]? with
    | none =>
      rw [List.drop_eq_nil_of_le (List.getElem?_eq_none_iff.mp found)]
      rfl
    | some token =>
      obtain ⟨below, rfl⟩ := List.getElem?_eq_some_iff.mp found
      rw [List.drop_eq_getElem_cons below, Command.tailLength]
      dsimp only
      by_cases continues : (s.rest[start + length].kind.startsWord ||
        s.rest[start + length].kind == .dot) = true
      · rw [if_pos continues, continues, Bool.true_and, bind_apply,
          stands.adjacent_apply inTokens, Verdict.bind_done]
        split
        · rw [bind_apply, machineWord_apply (by omega), Verdict.bind_done,
            ih (stands.mem_of_rest (List.getElem_mem below)) (by omega) (by omega)]
          simp only [Nat.add_assoc, Nat.add_comm 1]
        · rfl
      · rw [if_neg continues, Bool.eq_false_iff.mpr continues]
        rfl

/-- The word some places ahead is as long as it is seen to be. -/
theorem wordLength_apply {start : Nat} (inside : start ≤ s.rest.length) :
    wordLength start c = .done (Command.wordLength (s.rest.drop start)) c := by
  rw [wordLength, bind_apply, stands.peekAt_apply (by omega), Verdict.bind_done]
  cases found : s.rest[start]? with
  | none =>
    rw [List.drop_eq_nil_of_le (List.getElem?_eq_none_iff.mp found)]
    rfl
  | some first =>
    obtain ⟨below, rfl⟩ := List.getElem?_eq_some_iff.mp found
    rw [List.drop_eq_getElem_cons below, Command.wordLength]
    dsimp only
    split
    · obtain ⟨fuel, enough, same⟩ := stands.rounds_apply (wordLengthFrom start s.rest[start] 1)
      rw [same, stands.wordLengthFrom_apply (stands.mem_of_rest (List.getElem_mem below))
        (by omega) (by omega), Nat.add_comm]
    · rfl

/-- Words are seen ahead as far as they are apart. -/
theorem lookAheadFrom_apply {start fuel : Nat} {last : Token} (inTokens : last ∈ c.tokens)
    (inside : start ≤ s.rest.length) (enough : s.rest.length < start + fuel) :
    lookAheadFrom last start fuel c =
      .done ((Command.lookAhead s.rest last start).map (·.stop)) c := by
  have room := stands.representable.length
  have whole := stands.length_eq
  induction fuel generalizing last start with
  | zero => omega
  | succ fuel ih =>
    rw [lookAheadFrom, bind_apply, stands.wordLength_apply inside, Verdict.bind_done,
      Command.lookAhead]
    by_cases empty : Command.wordLength (s.rest.drop start) = 0
    · rw [if_pos empty, if_pos empty]
      rfl
    · have fits := Command.wordLength_le (s.rest.drop start)
      rw [List.length_drop] at fits
      generalize Command.wordLength (s.rest.drop start) = length at empty fits
      have first : start < s.rest.length := by omega
      have final : start + length - 1 < s.rest.length := by omega
      have filled : 1 ≤ start + length := by omega
      rw [if_neg empty, if_neg empty, bind_apply, stands.peekAt_apply (by omega),
        Verdict.bind_done, bind_apply, machineWord_apply (by omega), Verdict.bind_done, bind_apply,
        minus, if_pos filled, pure_apply, Verdict.bind_done, bind_apply,
        stands.peekAt_apply (by omega), Verdict.bind_done, List.getElem?_eq_getElem first,
        List.getElem?_eq_getElem final]
      dsimp only
      rw [bind_apply, stands.adjacent_apply inTokens, Verdict.bind_done]
      split
      · rfl
      · rw [bind_apply, machineWord_apply (by omega), Verdict.bind_done,
          ih (stands.mem_of_rest (List.getElem_mem final)) (by omega) (by omega)]
        cases Command.lookAhead s.rest s.rest[start + length - 1] (start + length) <;> rfl

/-- A command is found where it is seen. -/
theorem atCommand_apply : atCommand c = .done (Command.comesNext s.rest) c := by
  rw [atCommand, bind_apply, stands.peek_apply, Verdict.bind_done]
  cases found : s.peek with
  | none =>
    rw [List.head?_eq_none_iff.mp found]
    rfl
  | some name =>
    have rest := State.rest_of_peek found
    have filled : 1 ≤ s.rest.length := by rw [rest]; exact Nat.succ_pos _
    have comes := Command.comesNext_cons name s.next.rest
    rw [← rest] at comes
    rw [comes]
    dsimp only
    by_cases named : name.kind = .ident
    · obtain ⟨fuel, enough, same⟩ := stands.rounds_apply (lookAheadFrom name 1)
      rw [if_pos named, named, beq_self_eq_true, Bool.true_and, bind_apply, same,
        stands.lookAheadFrom_apply (stands.mem_of_peek found) filled (by omega), Verdict.bind_done]
      cases seen : Command.lookAhead s.rest name 1 with
      | none => rfl
      | some ahead =>
        obtain ⟨within, -, empty⟩ := Command.stop_of_lookAhead s.rest name 1 ahead seen filled
        dsimp only [Option.map_some, Option.elim_some]
        by_cases wordless : ahead.stop = 1
        · rw [if_pos wordless, empty.mpr wordless]
          rfl
        · rw [if_neg wordless, Bool.eq_false_iff.mpr (mt empty.mp wordless), Bool.not_false,
            Bool.true_and, bind_apply, stands.kindAt_apply (by omega), Verdict.bind_done]
          cases behind : s.rest[ahead.stop]? with
          | none =>
            rw [List.drop_eq_nil_of_le (List.getElem?_eq_none_iff.mp behind)]
            rfl
          | some token =>
            obtain ⟨below, rfl⟩ := List.getElem?_eq_some_iff.mp behind
            rw [List.drop_eq_getElem_cons below]
            rfl
    · rw [if_neg named, beq_false_of_ne named, Bool.false_and]
      rfl

/-- Some of the next tokens are read if there are as many. -/
theorem readWord_apply {length : Nat} (inside : length ≤ s.rest.length) :
    readWord length c = .done (s.rest.take length) (c.ahead length) := by
  induction length generalizing c s with
  | zero => rfl
  | succ length ih =>
    cases found : s.peek with
    | none =>
      rw [List.head?_eq_none_iff.mp found] at inside
      exact absurd inside (Nat.not_succ_le_zero _)
    | some token =>
      have rest := State.rest_of_peek found
      have fewer : length ≤ s.next.rest.length := by
        rw [rest, List.length_cons] at inside
        omega
      rw [readWord, bind_apply, stands.next_apply found, Verdict.bind_done]
      dsimp only
      rw [bind_apply, ih (stands.next found) fewer, Verdict.bind_done, Cursor.ahead_ahead, rest,
        List.take_succ_cons, Nat.add_comm]
      rfl

/-- The words are read up to where no word comes next, and there are no more of them than tokens
in them. -/
theorem readWordsFrom_apply {fuel : Nat} (enough : s.rest.length < fuel) :
    ∃ count, readWordsFrom fuel c = .done (Parser.readWords s).1 (c.ahead count) ∧
      Stands (c.ahead count) (Parser.readWords s).2 ∧ (Parser.readWords s).1.length ≤ count := by
  induction fuel generalizing c s with
  | zero => exact absurd enough (Nat.not_lt_zero _)
  | succ fuel ih =>
    have none := stands.wordLength_apply (Nat.zero_le _)
    rw [List.drop_zero] at none
    rw [readWordsFrom, bind_apply, none, Verdict.bind_done, Parser.readWords]
    by_cases empty : Command.wordLength s.rest = 0
    · rw [if_pos empty, if_pos empty]
      exact ⟨0, rfl, stands, Nat.le_refl 0⟩
    · have fits := Command.wordLength_le s.rest
      generalize Command.wordLength s.rest = length at empty fits
      rw [if_neg empty, if_neg empty, bind_apply, stands.readWord_apply fits, Verdict.bind_done]
      have read : s.Advances (s.rest.take length) (s.behind length) :=
        ⟨(List.take_append_drop length s.rest).symm, rfl⟩
      have behind := stands.advance read rfl rfl
      rw [List.length_take_of_le fits] at behind
      have shorter : (s.behind length).rest.length < fuel := by
        rw [State.behind, List.length_drop]
        omega
      obtain ⟨count, later, last, words⟩ := ih behind shorter
      refine ⟨length + count, ?_, ?_, ?_⟩
      · rw [bind_apply, later, Verdict.bind_done, Cursor.ahead_ahead]
        rfl
      · rwa [Cursor.ahead_ahead] at last
      · rw [List.length_cons]
        omega

end Stands

section Words

/-- The text of a word is found without a breach. -/
theorem wordText_eq (word : List Token) : wordText word = pure (Command.wordText word) := by
  match word with
  | [] | _ :: _ :: _ => rfl
  | [token] =>
    rw [wordText, Command.wordText, unquote_eq]
    split <;> rfl

/-- The argument that a word comes to breaches nothing. -/
theorem argument_eq (fallback : Position) (word : List Token) :
    argument fallback word = pure (Command.argument fallback word) := by
  rw [argument, wordText_eq, pure_bind]
  rfl

/-- The arguments that words come to breach nothing. -/
theorem mapM_argument (fallback : Position) (words : List (List Token)) :
    words.mapM (argument fallback) = pure (words.map (Command.argument fallback)) := by
  induction words with
  | nil => rfl
  | cons word words ih => rw [List.mapM_cons, argument_eq, pure_bind, ih, pure_bind, List.map_cons]

/-- The words of `load` are counted as used where so many uses are spare. -/
theorem loadTargets_agrees {depth : Depth} {c : Cursor} {s : State} (fallback : Position)
    (words : List (List Token)) (deep : c.depth = depth) (stands : Stands c s)
    (spare : c.Spare words.length) :
    Agrees depth (loadTargets fallback words c) (Parser.loadTargets fallback words s) := by
  induction words generalizing c s with
  | nil => exact .done deep stands
  | cons word words ih =>
    match word with
    | [] | _ :: _ :: _ =>
      simp only [loadTargets, Parser.loadTargets, wordText_eq, pure_bind]
      exact .failed deep stands.events (ordinary_of_flaw _ _)
    | [token] =>
      by_cases named : token.kind = .ident
      · obtain ⟨last, counted, same, behind, left⟩ := stands.used_apply spare token
        have later := ih (same.trans deep) behind left
        simp only [loadTargets, Parser.loadTargets, if_pos named, bind_apply, counted,
          Verdict.bind_done, pure_apply, Parser.bind_apply, Parser.used_apply, Outcome.bind_done,
          Parser.pure_apply]
        exact later.bind fun targets => .pure _
      · simp only [loadTargets, Parser.loadTargets, if_neg named, wordText_eq, pure_bind]
        exact .failed deep stands.events (ordinary_of_flaw _ _)

/-- A name and words come to the same call. -/
theorem commandOf_agrees {depth : Depth} {c : Cursor} {s : State} (callee : Ident)
    (words : List (List Token)) (deep : c.depth = depth) (stands : Stands c s)
    (spare : c.Spare words.length) :
    Agrees depth (commandOf callee words c) (Parser.commandOf callee words s) := by
  match words with
  | [] | [_] =>
    simp only [commandOf, Parser.commandOf, mapM_argument, pure_bind]
    exact .done deep stands
  | file :: target :: more =>
    by_cases loads : callee.name = "load"
    · simp only [commandOf, Parser.commandOf, if_pos loads, argument_eq, pure_bind]
      have fewer := spare.fewer (Nat.le_succ (target :: more).length)
      exact (loadTargets_agrees callee.pos _ deep stands fewer).bind fun targets => .pure _
    · simp only [commandOf, Parser.commandOf, if_neg loads, mapM_argument, pure_bind]
      exact .done deep stands

/-- A name that is known to come next is the name of a command, and the command is tracked. -/
theorem Tracks.command {depth : Depth} {known : State → Prop} {name : Token}
    (here : ∀ s, known s → s.peek = some name) (named : name.kind = .ident) :
    Tracks depth known Checked.command Parser.command := by
  intro c s deep stands holds
  have found := here s holds
  obtain ⟨last, counted, unmoved, behind, -⟩ :=
    (stands.next found).used_apply (stands.spare_ahead 1) name
  obtain ⟨fuel, enough, same⟩ := behind.rounds_apply readWordsFrom
  obtain ⟨count, read, reached, fewer⟩ := behind.readWordsFrom_apply enough
  have expected : Parser.expectUsed s = .done (Parser.declared name) (s.next.note name.text) :=
    Parser.expectUsed_eq_done.mpr ⟨name, found, named, rfl, rfl⟩
  rw [Checked.command, Parser.command_eq_commandOf]
  simp only [bind_apply, commandName, stands.peek_apply, found, Verdict.bind_done, named,
    ↓reduceIte, stands.step_apply, pure_apply, counted, same, read, Parser.bind_apply, expected,
    Outcome.bind_done, Parser.commandWords, Checked.report, change_apply, Parser.report_apply]
  exact commandOf_agrees _ _ (unmoved.trans deep) (reached.report _)
    ((behind.spare_ahead count).fewer fewer)

end Words

end Checked

end MatlabFront
