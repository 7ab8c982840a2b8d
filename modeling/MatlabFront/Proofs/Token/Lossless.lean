import Mathlib.Logic.Basic
import MatlabFront.Token.OfText

/-!
# Nothing of a text is lost

The tokens of a text stand in it where their positions say, one behind the other. What stands
between them is blanks, comments, continuations and, inside parentheses, newlines.
-/

namespace MatlabFront

/-- The number of bytes of a piece of text. -/
def byteSize (cs : List Char) : Nat := (String.ofList cs).utf8ByteSize

/-- The bytes of two texts are those of both. -/
theorem byteSize_append (cs more : List Char) :
    byteSize (cs ++ more) = byteSize cs + byteSize more := by
  rw [byteSize, String.ofList_append, String.utf8ByteSize_append]
  rfl

/-- The bytes of a text are those of its characters. -/
theorem byteSize_toList (text : String) : byteSize text.toList = text.utf8ByteSize := by
  rw [byteSize, String.ofList_toList]

/-- The brackets that are open behind some tokens when some are open in front of them, innermost
first. -/
def bracketsBehind (brackets : List Kind) (tokens : List Token) : List Kind :=
  tokens.foldl (fun brackets token => Context.bracketsAfter brackets token.kind) brackets

/-- A piece of text that makes no token inside some brackets and in front of some text. -/
inductive Trivia.Piece (brackets : List Kind) : List Char → List Char → Prop where
  | blank {c : Char} {rest : List Char} : c ∈ [' ', '\t', '\x0c', '\r'] → Piece brackets [c] rest
  /-- A comment takes the line to its end, but not the newline. -/
  | comment {sign : Char} {line rest : List Char} : sign ∈ ['%', '#'] → '\n' ∉ line →
    rest = [] ∨ rest.head? = some '\n' → Piece brackets (sign :: line) rest
  /-- A continuation takes the line to its end and the newline with it. -/
  | continuation {line rest : List Char} : '\n' ∉ line →
    Piece brackets ('.' :: '.' :: '.' :: (line ++ ['\n'])) rest
  /-- A continuation in the last line of a text has no newline to take. -/
  | lastContinuation {line : List Char} : '\n' ∉ line →
    Piece brackets ('.' :: '.' :: '.' :: line) []
  | newline {rest : List Char} : brackets.head? = some .leftParen → Piece brackets ['\n'] rest

/-- Text in front of some text that is made of pieces which make no token. -/
inductive Trivia (brackets : List Kind) : List Char → List Char → Prop where
  | nil {rest : List Char} : Trivia brackets [] rest
  | cons {piece more rest : List Char} : Trivia.Piece brackets piece (more ++ rest) →
    Trivia brackets more rest → Trivia brackets (piece ++ more) rest

variable {brackets : List Kind} {gap more rest text : List Char}

/-- One piece that makes no token is trivia. -/
theorem Trivia.Piece.trivia {piece : List Char} (one : Trivia.Piece brackets piece rest) :
    Trivia brackets piece rest := by
  have whole : Trivia brackets (piece ++ []) rest := .cons one .nil
  rwa [List.append_nil] at whole

/-- Trivia in front of trivia is trivia. -/
theorem Trivia.append (head : Trivia brackets gap (more ++ rest))
    (tail : Trivia brackets more rest) : Trivia brackets (gap ++ more) rest := by
  generalize known : more ++ rest = behind at head
  induction head with
  | nil => exact tail
  | @cons piece gap _ one _ ih =>
    subst known
    rw [List.append_assoc]
    exact .cons (by rwa [List.append_assoc]) (ih rfl)

/-- Blanks make no token. -/
theorem trivia_of_blanks (blank : ∀ c ∈ gap, Lexeme.isBlank c = true) :
    Trivia brackets gap rest := by
  induction gap with
  | nil => exact .nil
  | cons c gap ih =>
    obtain ⟨first, later⟩ := List.forall_mem_cons.mp blank
    have one : Trivia.Piece brackets [c] (gap ++ rest) :=
      .blank (by simpa [Lexeme.isBlank, or_assoc] using first)
    exact .cons one (ih later)

namespace Lexeme

variable {test : Char → Bool} {c : Char} {cs : List Char}

/-- A run of characters is those in front that satisfy its test. -/
theorem take_run : cs.take (run test cs) = cs.takeWhile test :=
  (List.prefix_iff_eq_take.mp (List.takeWhile_prefix test)).symm

/-- Behind a run stands what does not satisfy its test. -/
theorem drop_run : cs.drop (run test cs) = cs.dropWhile test := by
  have whole := List.take_append_drop (run test cs) cs
  rw [take_run] at whole
  exact List.append_cancel_left (whole.trans List.takeWhile_append_dropWhile.symm)

/-- A run that takes a line leaves the newline. -/
theorem run_line (cs : List Char) : '\n' ∉ cs.take (run (· != '\n') cs) ∧
    (cs.drop (run (· != '\n') cs) = [] ∨ ∃ rest, cs.drop (run (· != '\n') cs) = '\n' :: rest) := by
  rw [take_run, drop_run]
  constructor
  · intro inside
    have clean := List.all_eq_true.mp List.all_takeWhile _ inside
    simp at clean
  · cases left : cs.dropWhile (· != '\n') with
    | nil => exact .inl rfl
    | cons c rest =>
      have ends := List.head?_dropWhile_not (· != '\n') cs
      simp only [left, List.head?_cons, bne_eq_false_iff_eq] at ends
      exact .inr ⟨rest, by rw [ends]⟩

/-- An operator with an optional second character is one of two kinds. -/
theorem readPair_kind (second : Char) (both single : Kind) :
    (readPair cs second both single).kind = some both ∨
      (readPair cs second both single).kind = some single := by
  unfold readPair
  split
  · exact .inr rfl
  · split
    · exact .inl rfl
    · exact .inr rfl

/-- A dot that makes no token begins a continuation. -/
theorem readDot_none (silent : (readDot cs).kind = none) :
    ∃ later, cs = '.' :: '.' :: later ∧ (readDot cs).extra = 2 + continuationRun later := by
  unfold readDot at silent ⊢
  split at silent
  · cases silent
  · split at silent
    · cases silent
    split at silent
    · cases silent
    split at silent
    · split at silent
      case isTrue dots =>
        obtain ⟨rfl, rfl⟩ := dots
        exact ⟨_, rfl, rfl⟩
      case isFalse => cases silent
    · cases silent

/-- A dot makes no newline. -/
theorem readDot_ne_newline : (readDot cs).kind ≠ some .newline := by
  unfold readDot dottedOperator?
  grind

/-- What holds of a name and of all keywords holds of every word. -/
theorem wordKind_all {holds : Kind → Prop} (name : holds .ident)
    (keyword : ∀ entry ∈ keywords, holds entry.2) (word : List Char) : holds (wordKind word) := by
  unfold wordKind
  split
  case h_1 found => exact keyword _ (List.mem_of_find?_eq_some found)
  case h_2 => exact name

/-- No word is a newline. -/
theorem wordKind_ne_newline (word : List Char) : wordKind word ≠ .newline :=
  @wordKind_all (· ≠ .newline) (by decide) (by decide) word

/-- Only the newline itself is read as one. -/
theorem eq_newline_of_singleKind (known : singleKind? c = some .newline) : c = '\n' := by
  unfold singleKind? at known
  simp only [ite_eq_iff, Option.some.injEq, reduceCtorEq, and_false, false_or, and_true,
    or_false] at known
  grind

/-- What begins with neither a blank nor a comment nor a dot is a token, and only a newline is read
as one. -/
theorem read_kind (blank : ¬isBlank c = true) (comment : ¬(c = '%' ∨ c = '#')) (dot : c ≠ '.') :
    ∃ kind, (read c cs).kind = some kind ∧ (kind = .newline → c = '\n') := by
  have pair {second : Char} {both single : Kind} (first : both ≠ .newline)
      (other : single ≠ .newline) : ∃ kind,
      (readPair cs second both single).kind = some kind ∧ (kind = .newline → c = '\n') :=
    (readPair_kind second both single).elim (fun same => ⟨both, same, fun new => absurd new first⟩)
      fun same => ⟨single, same, fun new => absurd new other⟩
  rw [read, if_neg blank, if_neg comment]
  split
  · exact ⟨_, rfl, fun newline => absurd newline (wordKind_ne_newline _)⟩
  split
  · exact ⟨_, rfl, Kind.noConfusion⟩
  split
  · exact ⟨_, rfl, by split <;> exact Kind.noConfusion⟩
  iterate 6
    split
    · exact pair Kind.noConfusion Kind.noConfusion
  split
  case h_1 known =>
    refine ⟨_, rfl, ?_⟩
    rintro rfl
    exact eq_newline_of_singleKind known
  case h_2 => exact ⟨_, rfl, Kind.noConfusion⟩

/-- A lexeme that makes no token is blanks, a comment or a continuation. -/
theorem read_none (silent : (read c cs).kind = none) :
    isBlank c = true ∧ (read c cs).extra = run isBlank cs ∨
      c ∈ ['%', '#'] ∧ (read c cs).extra = run (· != '\n') cs ∨
        c = '.' ∧ ∃ later, cs = '.' :: '.' :: later ∧
          (read c cs).extra = 2 + continuationRun later := by
  by_cases blank : isBlank c = true
  · exact .inl ⟨blank, by rw [read, if_pos blank]⟩
  by_cases comment : c = '%' ∨ c = '#'
  · exact .inr (.inl ⟨by simpa using comment, by rw [read, if_neg blank, if_pos comment]⟩)
  by_cases dot : c = '.'
  · subst dot
    have reads : read '.' cs = readDot cs := rfl
    rw [reads] at silent ⊢
    exact .inr (.inr ⟨rfl, readDot_none silent⟩)
  · obtain ⟨kind, same, -⟩ := @read_kind c cs blank comment dot
    cases silent.symm.trans same

/-- Only a newline is read as one. -/
theorem read_newline (newline : (read c cs).kind = some .newline) : c = '\n' := by
  by_cases blank : isBlank c = true
  · rw [read, if_pos blank] at newline
    cases newline
  by_cases comment : c = '%' ∨ c = '#'
  · rw [read, if_neg blank, if_pos comment] at newline
    cases newline
  by_cases dot : c = '.'
  · subst dot
    exact absurd newline readDot_ne_newline
  · obtain ⟨kind, same, only⟩ := @read_kind c cs blank comment dot
    exact only (Option.some.inj (same.symm.trans newline))

/-- A lexeme that makes no token is trivia, whatever brackets are open. -/
theorem trivia_of_read (silent : (read c cs).kind = none) :
    Trivia brackets (c :: cs.take (read c cs).extra) (cs.drop (read c cs).extra) := by
  obtain ⟨blank, extra⟩ | ⟨sign, extra⟩ | ⟨rfl, later, rfl, extra⟩ := read_none silent
  · rw [extra, take_run]
    have run : ∀ c ∈ cs.takeWhile isBlank, isBlank c = true :=
      List.all_eq_true.mp List.all_takeWhile
    exact trivia_of_blanks (List.forall_mem_cons.mpr ⟨blank, run⟩)
  · rw [extra]
    obtain ⟨line, ended⟩ := run_line cs
    refine (Trivia.Piece.comment sign line ?_).trivia
    exact ended.imp_right fun ⟨rest, left⟩ => by rw [left]; rfl
  · rw [extra, Nat.add_comm]
    change Trivia _ ('.' :: '.' :: '.' :: later.take (continuationRun later))
      (later.drop (continuationRun later))
    obtain ⟨line, ended⟩ := run_line later
    unfold continuationRun
    obtain left | ⟨rest, left⟩ := ended
    · simp only [left]
      exact (Trivia.Piece.lastContinuation line).trivia
    · simp only [left]
      rw [List.take_add, ← List.drop_drop, left]
      exact (Trivia.Piece.continuation line).trivia

end Lexeme

namespace Context

variable {context : Context} {c : Char} {cs : List Char}

/-- The position behind two texts is found text by text. -/
theorem advance_append (pos : Position) (front back : List Char) :
    advance pos (front ++ back) = advance (advance pos front) back := by
  simp only [advance, List.count_append, String.ofList_append, String.utf8ByteSize_append,
    Nat.add_assoc]

/-- A lexeme of a text is no apostrophe that is left open. -/
theorem lexeme_kind : (context.lexeme c cs).kind ≠ some .quote := by
  unfold lexeme
  dsimp only
  split
  · split
    · simp
    · dsimp only
      split <;> simp
  · split <;> simp [*]
  case _ other _ => exact other

/-- A lexeme that makes no token in a context is trivia inside its brackets. -/
theorem trivia_of_lexeme (silent : (context.lexeme c cs).kind = none) :
    Trivia context.brackets (c :: cs.take (context.lexeme c cs).extra)
      (cs.drop (context.lexeme c cs).extra) := by
  unfold lexeme at silent ⊢
  dsimp only at silent ⊢
  split at silent
  · split at silent <;> cases silent
  case h_2 newline =>
    obtain rfl := Lexeme.read_newline newline
    split at silent
    case isTrue enclosed =>
      rw [if_pos enclosed]
      exact (Trivia.Piece.newline enclosed).trivia
    case isFalse => rw [newline] at silent; cases silent
  case h_3 => exact Lexeme.trivia_of_read silent

end Context

/-- A text that starts at an offset, inside some brackets, is some tokens with trivia around them.
The tokens stand where their positions say. -/
inductive Tiled : Nat → List Kind → List Token → List Char → Prop where
  | last {offset : Nat} {brackets : List Kind} {text : List Char} : Trivia brackets text [] →
    Tiled offset brackets [] text
  | token {offset : Nat} {brackets : List Kind} {token : Token} {tokens : List Token}
      {gap rest : List Char} :
    Trivia brackets gap (token.text.toList ++ rest) → token.text ≠ "" → token.kind ≠ .quote →
      token.pos.offset = offset + byteSize gap →
      Tiled token.stop (Context.bracketsAfter brackets token.kind) tokens rest →
      Tiled offset brackets (token :: tokens) (gap ++ (token.text.toList ++ rest))

variable {offset : Nat} {tokens front back : List Token}

/-- Trivia in front of a text belong to its first gap. -/
theorem Tiled.skip (skipped : Trivia brackets gap text)
    (tiled : Tiled (offset + byteSize gap) brackets tokens text) :
    Tiled offset brackets tokens (gap ++ text) := by
  cases tiled with
  | last behind => exact .last ((List.append_nil text ▸ skipped).append behind)
  | token behind filled plain starts later =>
    rw [← List.append_assoc]
    refine .token (skipped.append behind) filled plain ?_ later
    rw [starts, byteSize_append, Nat.add_assoc]

/-- The tokens of a text in a context are all of it but trivia. -/
theorem Context.tiled (context : Context) (cs : List Char) :
    Tiled context.pos.offset context.brackets (context.tokens cs) cs := by
  induction context, cs using Context.tokens.induct with
  | case1 context =>
    rw [Context.tokens]
    exact .last .nil
  | case2 context c cs lexeme text silent ih =>
    have whole : text ++ cs.drop lexeme.extra = c :: cs :=
      congrArg (c :: ·) (List.take_append_drop _ _)
    rw [Context.tokens, silent, ← whole]
    exact .skip (Context.trivia_of_lexeme silent) ih
  | case3 context c cs lexeme text kind known ih =>
    have whole : text ++ cs.drop lexeme.extra = c :: cs :=
      congrArg (c :: ·) (List.take_append_drop _ _)
    have spelled : (context.token kind text).text.toList = text := String.toList_ofList
    have filled : (context.token kind text).text ≠ "" := fun empty => by
      rw [empty, String.toList_empty] at spelled
      exact List.cons_ne_nil _ _ spelled.symm
    have plain : kind ≠ .quote := fun quote => Context.lexeme_kind (quote ▸ known)
    have tiled : Tiled context.pos.offset context.brackets
        (context.token kind text :: (context.push kind text).tokens (cs.drop lexeme.extra))
        ([] ++ ((context.token kind text).text.toList ++ cs.drop lexeme.extra)) :=
      .token .nil filled plain rfl ih
    rw [spelled] at tiled
    rw [Context.tokens, known, ← whole]
    exact tiled

/-- A token of a text is what stands in it at the position of the token. -/
theorem Tiled.mem {token : Token} (tiled : Tiled offset brackets tokens text)
    (inside : token ∈ tokens) : token.text ≠ "" ∧ token.kind ≠ .quote ∧
      ∃ before after, text = before ++ (token.text.toList ++ after) ∧
        token.pos.offset = offset + byteSize before := by
  induction tiled with
  | last => cases inside
  | @token offset _ first _ gap _ _ filled plain starts _ ih =>
    obtain rfl | later := List.mem_cons.mp inside
    · exact ⟨filled, plain, gap, _, rfl, starts⟩
    obtain ⟨filled, plain, before, after, rfl, place⟩ := ih later
    refine ⟨filled, plain, gap ++ (first.text.toList ++ before), after, ?_, ?_⟩
    · simp only [List.append_assoc]
    · rw [place, Token.stop, starts]
      simp only [byteSize_append, byteSize_toList, Nat.add_assoc]

/-- The tokens of a text come in its order and do not overlap. -/
theorem Tiled.pairwise (tiled : Tiled offset brackets tokens text) :
    tokens.Pairwise fun token next => token.stop ≤ next.pos.offset := by
  induction tiled with
  | last => exact .nil
  | token _ _ _ _ later ih =>
    refine .cons (fun next inside => ?_) ih
    obtain ⟨-, -, before, -, -, place⟩ := later.mem inside
    rw [place]
    exact Nat.le_add_right ..

/-- Between the tokens of a text, in front of them and behind them stand trivia. -/
theorem Tiled.between (tiled : Tiled offset brackets (front ++ back) text) :
    ∃ before gap after, text = before ++ (gap ++ after) ∧
      offset + byteSize before = front.getLast?.elim offset Token.stop ∧
      offset + byteSize (before ++ gap) =
        back.head?.elim (offset + byteSize text) (·.pos.offset) ∧
      Trivia (bracketsBehind brackets front) gap after := by
  induction front generalizing offset brackets text with
  | nil =>
    cases tiled with
    | last behind => exact ⟨[], text, [], by simp, rfl, rfl, behind⟩
    | token behind _ _ starts _ => exact ⟨[], _, _, rfl, rfl, starts.symm, behind⟩
  | cons first front ih =>
    cases tiled with
    | @token _ _ _ _ space rest _ _ _ starts later =>
      obtain ⟨before, gap, after, rfl, begins, ends, between⟩ := ih later
      have place (more : List Char) : offset + byteSize (space ++ (first.text.toList ++ more)) =
          first.stop + byteSize more := by
        rw [byteSize_append, byteSize_append, byteSize_toList, Token.stop, starts]
        omega
      refine ⟨space ++ (first.text.toList ++ before), gap, after, by simp, ?_, ?_, between⟩
      · rw [place, begins]
        cases front with
        | nil => rfl
        | cons => simp [List.getLast?_cons]
      · rw [List.append_assoc, List.append_assoc, place, ends, place]

/-- The bytes of a word in a text are those behind the text in front of it. -/
theorem extract_word (before word after : String) :
    (before ++ (word ++ after)).toByteArray.extract before.utf8ByteSize
      (before.utf8ByteSize + word.utf8ByteSize) = word.toByteArray := by
  rw [String.toByteArray_append, String.toByteArray_append, ← String.size_toByteArray]
  calc (before.toByteArray ++ (word.toByteArray ++ after.toByteArray)).extract
        (before.toByteArray.size + 0) (before.toByteArray.size + word.utf8ByteSize)
      = (word.toByteArray ++ after.toByteArray).extract 0 word.utf8ByteSize :=
        ByteArray.extract_append_size_add
    _ = word.toByteArray := ByteArray.extract_append_eq_left String.size_toByteArray.symm

/-- Nothing of a text is lost. A token is not empty, and no apostrophe is left open; its text is
what stands between its two ends, which are bounds of characters. Tokens come in the order of the
text and do not overlap. What stands in front of the tokens, between two of them and behind them is
trivia. -/
theorem Token.ofText_lossless (text : String) :
    (∀ token ∈ Token.ofText text, token.text ≠ "" ∧ token.kind ≠ .quote ∧
      (String.Pos.Raw.mk token.pos.offset).IsValid text ∧
      (String.Pos.Raw.mk token.stop).IsValid text ∧
      text.toByteArray.extract token.pos.offset token.stop = token.text.toByteArray) ∧
    ((Token.ofText text).Pairwise fun token next => token.stop ≤ next.pos.offset) ∧
    ∀ front back, Token.ofText text = front ++ back →
      ∃ before gap after : List Char, text.toList = before ++ (gap ++ after) ∧
        byteSize before = front.getLast?.elim 0 Token.stop ∧
        byteSize (before ++ gap) = back.head?.elim text.utf8ByteSize (·.pos.offset) ∧
        Trivia (bracketsBehind [] front) gap after := by
  have tiled : Tiled 0 [] (Token.ofText text) text.toList := Context.start.tiled text.toList
  refine ⟨fun token inside => ?_, tiled.pairwise, fun front back split => ?_⟩
  · obtain ⟨filled, plain, before, after, whole, place⟩ := tiled.mem inside
    have spelled : text = String.ofList before ++ (token.text ++ String.ofList after) := by
      calc text = String.ofList text.toList := String.ofList_toList.symm
        _ = String.ofList before ++ (token.text ++ String.ofList after) := by
          rw [whole, String.ofList_append, String.ofList_append, String.ofList_toList]
    have starts : token.pos.offset = (String.ofList before).utf8ByteSize := by
      rw [place, Nat.zero_add]
      rfl
    have stops : token.stop = (String.ofList before ++ token.text).utf8ByteSize := by
      rw [Token.stop, starts, String.utf8ByteSize_append]
    refine ⟨filled, plain, ?_, ?_, ?_⟩
    · exact String.Pos.Raw.isValid_iff_exists_append.mpr
        ⟨_, _, spelled, congrArg String.Pos.Raw.mk starts⟩
    · exact String.Pos.Raw.isValid_iff_exists_append.mpr
        ⟨_, _, spelled.trans String.append_assoc.symm, congrArg String.Pos.Raw.mk stops⟩
    · rw [Token.stop, starts, spelled, extract_word]
  · rw [split] at tiled
    obtain ⟨before, gap, after, whole, begins, ends, between⟩ := tiled.between
    simp only [Nat.zero_add, byteSize_toList] at begins ends
    exact ⟨before, gap, after, whole, begins, ends, between⟩

end MatlabFront
