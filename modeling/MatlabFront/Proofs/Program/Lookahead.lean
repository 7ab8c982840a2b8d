import MatlabFront.Proofs.Program.Dialects
import MatlabFront.Proofs.Program.Words

/-!
# Commands that were seen

Whether a command comes next is decided by looking ahead, with the indices of the tokens. The words
are then read again, one after the other, from the tokens that are left. Both find the same words,
so what was seen is read to its end, the statement can end behind it, and all that can go wrong is a
word of `load` that names no variable.
-/

namespace MatlabFront

namespace Command

/-- A word that names a variable is a single name. -/
def isVariable : List Token → Bool
  | [token] => token.kind == .ident
  | _ => false

/-- What a name and the words behind it come to. It is a call with one string for each word. Only
`load` with several words reads the file that the first one names, and the others have to be the
variables that it assigns. -/
def meaning (name : Token) (words : List (List Token)) : Except Failure Call :=
  if name.text = "load" ∧ 2 ≤ words.length then
    match words.tail.find? (!isVariable ·) with
    | some word =>
      .error (.invalidTarget (.wordNotAVariable (wordText word)) (wordPos name.pos word))
    | none => .ok (.mk (.ident (Parser.declared name)) ((words.take 1).map (argument name.pos))
        (some (words.tail.flatten.map fun target => .var (Parser.declared target))) name.pos)
  else .ok (.mk (.ident (Parser.declared name)) (words.map (argument name.pos)) none name.pos)

/-- Where a command comes next, words were seen behind its name, and the end of the statement behind
them. -/
theorem ahead_of_comesNext {tokens : List Token} (comes : comesNext tokens = true) :
    ∃ name later ahead, tokens = name :: later ∧ name.kind = .ident ∧
      lookAhead tokens name 1 = some ahead ∧ ahead.words ≠ [] ∧
      endsStatement (tokens.drop ahead.stop) = true := by
  cases tokens with
  | nil => cases comes
  | cons name later =>
    cases seen : lookAhead (name :: later) name 1 with
    | none =>
      rw [comesNext, seen, Bool.and_false] at comes
      cases comes
    | some ahead =>
      rw [comesNext, seen] at comes
      simp only [Bool.and_eq_true, beq_iff_eq, Bool.not_eq_true',
        List.isEmpty_eq_false_iff] at comes
      exact ⟨name, later, ahead, rfl, comes.1, seen, comes.2.1, comes.2.2⟩

end Command

namespace Parser

variable {s : State} {name : Token}

/-- No token is read for the words that become the variables of `load`, and they become that up to
the first one that is none. -/
theorem loadTargets_eq (fallback : Position) (words : List (List Token)) (s : State) :
    ∃ final, s.Advances [] final ∧
      loadTargets fallback words s =
        match words.find? (!Command.isVariable ·) with
        | some word => .failed (.invalidTarget (.wordNotAVariable (Command.wordText word))
            (Command.wordPos fallback word)) final
        | none => .done (words.flatten.map fun target => .var (declared target)) final := by
  induction words generalizing s with
  | nil => exact ⟨s, .refl s, rfl⟩
  | cons word words ih =>
    by_cases single : Command.isVariable word = true
    · -- The word is a name, whose use is noted in front of the other words.
      obtain ⟨token, rfl, kind⟩ : ∃ token, word = [token] ∧ token.kind = .ident := by
        unfold Command.isVariable at single
        split at single
        case h_1 token => exact ⟨token, rfl, by simpa using single⟩
        case h_2 => cases single
      obtain ⟨final, still, read⟩ := ih (s.note token.text)
      refine ⟨final, ((State.Advances.refl s).note token.text).trans still, ?_⟩
      have passes : (!Command.isVariable [token]) = false := by rw [single]; rfl
      rw [List.find?_cons, passes]
      simp only [loadTargets, kind, ↓reduceIte, bind_apply, used_apply, pure_apply,
        Outcome.bind_done, read]
      cases words.find? (!Command.isVariable ·) <;> rfl
    · refine ⟨s, .refl s, ?_⟩
      have stops : (!Command.isVariable word) = true := by simpa using single
      rw [List.find?_cons, stops]
      obtain _ | ⟨token, _ | ⟨next, more⟩⟩ := word
      · rfl
      · have other : token.kind ≠ .ident := by simpa [Command.isVariable] using single
        simp only [loadTargets, other, ↓reduceIte, bind_apply, reject_apply, Outcome.bind_failed]
        rfl
      · rfl

/-- A command is what its name and the words behind it come to, and it takes these. -/
theorem command_eq (known : s.peek = some name) (kind : name.kind = .ident) :
    ∃ final, s.Advances (name :: (Command.words s.next.rest).1.flatten) final ∧
      final.rest = (Command.words s.next.rest).2 ∧
      command s =
        ofExcept ((Command.meaning name (Command.words s.next.rest).1).map .call) final := by
  have callee : expectUsed s = .done (declared name) (s.next.note name.text) :=
    expectUsed_eq_done.mpr ⟨name, known, kind, rfl, rfl⟩
  have whole := Command.words_flatten s.next.rest
  rw [command, bind_apply, callee, Outcome.bind_done, bind_apply, commandWords_apply,
    Outcome.bind_done, bind_apply, report_apply, Outcome.bind_done, State.note_rest,
    State.note_consumed]
  generalize (Command.words s.next.rest).1 = found at whole ⊢
  generalize (Command.words s.next.rest).2 = rest at whole ⊢
  -- The words are read whatever becomes of them.
  generalize reached : State.mk (found.flatten.reverse ++ s.next.consumed) rest
    (s.next.note name.text).scope _ = behind
  have advances : s.Advances (name :: found.flatten) behind := by
    rw [← reached]
    exact .cons known ⟨whole.symm, rfl⟩
  have left : behind.rest = rest := by rw [← reached]
  match found with
  | [] | [_] =>
    refine ⟨behind, advances, left, ?_⟩
    simp [Command.meaning, declared, ofExcept, Except.map]
  | file :: target :: more =>
    by_cases loads : name.text = "load"
    · obtain ⟨final, still, read⟩ := loadTargets_eq name.pos (target :: more) behind
      refine ⟨final, by simpa using advances.trans still, still.rest.symm.trans left, ?_⟩
      simp only [declared, loads, ↓reduceIte, bind_apply, read]
      simp only [Command.meaning, loads, List.length_cons, true_and, List.tail_cons]
      rw [if_pos (by omega)]
      cases (target :: more).find? (!Command.isVariable ·) with
      | none => simp [ofExcept, Except.map, declared, loads]
      | some word => simp [ofExcept, Except.map]
    · refine ⟨behind, advances, left, ?_⟩
      simp [Command.meaning, declared, loads, ofExcept, Except.map]

/-- The same words behind the same name are the same call, whatever stands behind them. -/
theorem command_of_words {s' final : State} {call : Call}
    (run : command s = .done (.call call) final) (next : s'.peek = s.peek)
    (same : (Command.words s'.next.rest).1 = (Command.words s.next.rest).1) :
    ∃ final', command s' = .done (.call call) final' ∧
      final.rest = (Command.words s.next.rest).2 ∧
      final'.rest = (Command.words s'.next.rest).2 := by
  obtain ⟨name, _, -, taken⟩ := command_takes run
  obtain ⟨behind, -, left, read⟩ := command_eq taken.known taken.kind
  obtain ⟨behind', -, left', read'⟩ := command_eq (next.trans taken.known) taken.kind
  rw [same] at read'
  rw [run] at read
  cases known : Command.meaning name (Command.words s.next.rest).1 with
  | error failure =>
    rw [known] at read
    cases read
  | ok other =>
    rw [known] at read read'
    obtain ⟨written, rfl⟩ := Outcome.done.inj read
    obtain rfl := Stmt.call.inj written
    exact ⟨behind', read', left, left'⟩

/-- Where a command comes next, the words that were seen ahead are those that are read. The command
takes its name and exactly these words, the statement can end behind them, and it is what the name
and the words come to: a call, unless `load` is to assign a word that names no variable. -/
theorem statement_of_comesNext (comes : Command.comesNext s.rest = true) :
    ∃ name ahead found behind final,
      s.peek = some name ∧ name.kind = .ident ∧
      Command.lookAhead s.rest name 1 = some ahead ∧
      found = ahead.words.map (Command.wordAt s.rest) ∧ found ≠ [] ∧
      commandWords (s.next.note name.text) = .done found behind ∧
      behind.rest = s.rest.drop ahead.stop ∧
      s.Advances (name :: found.flatten) behind ∧
      s.Advances (name :: found.flatten) final ∧
      expectTerminator final = .done () final ∧
      command s = ofExcept ((Command.meaning name found).map .call) final ∧
      ∀ steps, statement (steps + 2) .matlab s =
        ofExcept ((Command.meaning name found).map fun call => [.call call]) final := by
  obtain ⟨name, later, ahead, rest, kind, seen, filled, ends⟩ := Command.ahead_of_comesNext comes
  obtain ⟨known, left⟩ := State.peek_of_rest rest
  -- What was seen is what is cut from the tokens behind the name.
  have same := Command.lookAhead_eq s.rest name 1
  have after : s.rest.drop 1 = s.next.rest := by
    rw [rest, left, List.drop_succ_cons, List.drop_zero]
  rw [seen, after] at same
  obtain ⟨-, found, stop⟩ := same
  obtain ⟨final, advances, unread, read⟩ := command_eq known kind
  have whole := Command.words_flatten s.next.rest
  have words := commandWords_apply (s.next.note name.text)
  rw [State.note_rest, State.note_consumed] at words
  rw [← found] at advances read words whole
  rw [← stop] at unread words whole
  have terminates : expectTerminator final = .done () final := by
    have here : final.atTerminator = true := by
      rw [← unread] at ends
      rw [State.atTerminator, State.peekKind]
      cases left : final.rest with
      | nil => rfl
      | cons token more => rwa [left] at ends
    rw [expectTerminator_apply, if_pos here]
  refine ⟨name, ahead, _, _, final, known, kind, seen, rfl, by simpa using filled, words, rfl,
    .cons known ⟨whole.symm, rfl⟩, advances, terminates, read, fun steps => ?_⟩
  have plain : Surface.startsPlain s.peekKind = true := by
    rw [State.peekKind_of_peek known, kind]
    rfl
  have begins : Command.begins s.rest = true := by rw [← Command.comesNext_eq_begins, comes]
  rw [statement, bind_apply, openStatement_of_plain plain, plainStatement_apply]
  dsimp only
  rw [if_pos begins, read]
  cases Command.meaning name (ahead.words.map (Command.wordAt s.rest)) with
  | ok call =>
    change (expectTerminator final).bind _ = _
    rw [terminates]
    rfl
  | error failure => rfl

/-- The words of `load data.mat x y` are seen, and the last two of them become variables. -/
theorem statement_of_comesNext_load :
    let tokens : List Token := [⟨.ident, "load", ⟨1, 0⟩⟩, ⟨.ident, "data", ⟨1, 5⟩⟩,
      ⟨.dot, ".", ⟨1, 9⟩⟩, ⟨.ident, "mat", ⟨1, 10⟩⟩, ⟨.ident, "x", ⟨1, 14⟩⟩, ⟨.ident, "y", ⟨1, 16⟩⟩]
    Command.comesNext tokens = true ∧
      ∃ final, final.rest = [] ∧ statement 2 .matlab ⟨[], tokens, none, []⟩ =
        .done [.call (.mk (.ident ⟨"load", ⟨1, 0⟩⟩) [.string "data.mat" ⟨1, 5⟩]
          (some [.var ⟨"x", ⟨1, 14⟩⟩, .var ⟨"y", ⟨1, 16⟩⟩]) ⟨1, 0⟩)] final := by
  intro tokens
  have comes : Command.comesNext tokens = true := by cbv
  have ahead : Command.lookAhead tokens ⟨.ident, "load", ⟨1, 0⟩⟩ 1 =
      some ⟨[(1, 3), (4, 1), (5, 1)], 6⟩ := by cbv
  obtain ⟨name, _, found, behind, final, known, -, seen, rfl, -, -, -, -, advances, -, -, read⟩ :=
    statement_of_comesNext (s := ⟨[], tokens, none, []⟩) comes
  obtain rfl := Option.some.inj known
  obtain rfl := Option.some.inj (ahead.symm.trans seen)
  refine ⟨comes, final, ?_, read 0⟩
  exact (List.self_eq_append_right.mp advances.rest)

end Parser

end MatlabFront
