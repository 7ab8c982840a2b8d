import MatlabFront.Proofs.Token.Opening
import MatlabFront.Proofs.Tree.Relocate

/-!
# A text in lines

A newline outside of all brackets ends whatever was being read, and what is read behind it starts
afresh. So the tokens of a text that goes on in a further line are those of the text, the newline,
and those of what follows, which only stand further down. The one exception is a line that is
continued: its continuation takes the newline with it.
-/

namespace MatlabFront

/-- A length that is read off the front of a text: it is no more than the text has, and a newline
behind the text makes no difference. -/
structure KeepsLine (length : List Char → Nat) : Prop where
  le (cs : List Char) : length cs ≤ cs.length
  newline (cs more : List Char) : length (cs ++ '\n' :: more) = length cs

namespace KeepsLine

variable {first : List Char → Nat}

/-- What is behind a length goes on with the newline. -/
theorem drop (keeps : KeepsLine first) (cs more : List Char) :
    (cs ++ '\n' :: more).drop (first cs) = cs.drop (first cs) ++ '\n' :: more :=
  List.drop_append_of_le_length (keeps.le cs)

/-- A run of characters that are no newlines. -/
theorem run {test : Char → Bool} (stops : test '\n' = false) : KeepsLine (Lexeme.run test) where
  le cs := (List.takeWhile_prefix test).length_le
  newline cs more := by
    unfold Lexeme.run
    induction cs with
    | nil => simp [stops]
    | cons c cs ih =>
      rw [List.cons_append, List.takeWhile_cons, List.takeWhile_cons]
      split
      · rw [List.length_cons, List.length_cons, ih]
      · rfl

/-- What is read again in front of all that halts is read again in front of a newline. -/
theorem of_cuttable (cuttable : Cuttable first) : KeepsLine first where
  le := cuttable.le
  newline cs more := by
    have halts : Halts ('\n' :: more) := .of_cons (by decide)
    have whole : first (cs.take cs.length ++ '\n' :: more) = first cs :=
      cuttable.cut (cuttable.le cs) halts
    rwa [List.take_length] at whole

/-- The digits behind a point are read again in front of a newline. -/
theorem fraction : KeepsLine Lexeme.fractionRun := of_cuttable .fraction

/-- A number is read again in front of a newline. -/
theorem number : KeepsLine Lexeme.numberRun where
  le := Lexeme.numberRun_le
  newline cs more := by
    have halts : Halts ('\n' :: more) := .of_cons (by decide)
    have whole : Lexeme.numberRun (cs.take cs.length ++ '\n' :: more) = Lexeme.numberRun cs :=
      Lexeme.numberRun_cut (.inr rfl) halts nofun
    rwa [List.take_length] at whole

end KeepsLine

/-- A literal closes in front of a newline or not at all. -/
theorem Literal.closingRun_newline {quote : Char} (other : quote ≠ '\n') (cs more : List Char) :
    closingRun quote (cs ++ '\n' :: more) = closingRun quote cs := by
  fun_induction closingRun quote cs with
  | case1 | case2 => simp [closingRun.eq_def]
  | case3 => simp [closingRun.eq_def _ (_ :: _), other, other.symm]
  | case4 rest _ ih => simp [closingRun.eq_def _ (_ :: _), other, ih]
  | case5 d rest differs _ => simp [closingRun.eq_def _ (_ :: _), other, differs]
  | case6 c cs line differs ih => simp [closingRun.eq_def _ (_ :: _), line, differs, ih]

namespace Lexeme

variable {c : Char} {cs : List Char}

/-- A dot begins a continuation whose line has not ended. -/
def Continues (c : Char) (cs : List Char) : Prop :=
  c = '.' ∧ ∃ line, cs = '.' :: '.' :: line ∧ '\n' ∉ line

/-- A continuation that has its newline does not see a further one. -/
theorem continuationRun_newline (ended : '\n' ∈ cs) (more : List Char) :
    continuationRun (cs ++ '\n' :: more) = continuationRun cs := by
  have line : KeepsLine (run (· != '\n')) := .run rfl
  obtain ⟨inside, left | ⟨rest, left⟩⟩ := run_line cs
  · rw [List.take_of_length_le (List.drop_eq_nil_iff.mp left)] at inside
    exact absurd ended inside
  · simp only [continuationRun, line.newline, line.drop, left, List.cons_append]

/-- What a dot takes is the same in front of a newline, unless it takes the newline itself. -/
theorem readDot_newline (finished : ¬Continues '.' cs) (more : List Char) :
    readDot (cs ++ '\n' :: more) = readDot cs := by
  match cs with
  | [] => cases more <;> rfl
  | [c] =>
    simp only [List.cons_append, List.nil_append, readDot]
    split
    · rfl
    · cases dottedOperator? c <;> simp
  | c :: d :: rest =>
    have fraction := KeepsLine.fraction.newline (d :: rest) more
    simp only [List.cons_append, readDot] at fraction ⊢
    rw [fraction]
    by_cases dots : c = '.' ∧ d = '.'
    · obtain ⟨rfl, rfl⟩ := dots
      have ended : '\n' ∈ rest :=
        Classical.not_not.mp fun line => finished ⟨rfl, rest, rfl, line⟩
      rw [continuationRun_newline ended]
    · simp only [if_neg dots]

/-- No operator goes on with a newline. -/
theorem readPair_newline {second : Char} (other : second ≠ '\n') (cs more : List Char)
    (both single : Kind) :
    readPair (cs ++ '\n' :: more) second both single = readPair cs second both single := by
  cases cs with
  | nil => simp [readPair, other.symm]
  | cons => rfl

/-- The lexeme at the front of a text does not see a newline behind the text, unless it is a
continuation whose line has not ended. -/
theorem read_newline_behind (finished : ¬Continues c cs) (more : List Char) :
    read c (cs ++ '\n' :: more) = read c cs := by
  by_cases dot : c = '.'
  · subst dot
    exact readDot_newline finished more
  · have blanks : KeepsLine (run isBlank) := .run rfl
    have line : KeepsLine (run (· != '\n')) := .run rfl
    have word : KeepsLine (run continuesName) := .run rfl
    have letters : (cs ++ '\n' :: more).take (run continuesName cs) =
        cs.take (run continuesName cs) := List.take_append_of_le_length (word.le cs)
    simp only [read, blanks.newline, line.newline, word.newline, letters, KeepsLine.number.newline,
      if_neg dot, Literal.closingRun_newline, readPair_newline, ne_eq, Char.reduceEq,
      not_false_eq_true]

end Lexeme

/-- A text that starts at an offset, inside some brackets, has some tokens and then breaks off in a
continuation: behind the last token come pieces that make none, then three dots and a line without a
newline. -/
def BreaksOff (offset : Nat) (brackets : List Kind) (tokens : List Token) (text : List Char) :
    Prop :=
  ∃ before gap line, text = before ++ (gap ++ '.' :: '.' :: '.' :: line) ∧
    offset + byteSize before = tokens.getLast?.elim offset Token.stop ∧
    Trivia (bracketsBehind brackets tokens) gap ('.' :: '.' :: '.' :: line) ∧ '\n' ∉ line

/-- A text whose last line is continued ends inside of the continuation. -/
def Token.EndsContinued (text : String) : Prop := BreaksOff 0 [] (Token.ofText text) text.toList

namespace BreaksOff

variable {offset : Nat} {brackets : List Kind} {tokens : List Token} {gap text line : List Char}

/-- A continuation whose line has not ended makes no token. -/
theorem of_line (open_ : '\n' ∉ line) :
    BreaksOff offset brackets [] ('.' :: '.' :: '.' :: line) :=
  ⟨[], [], line, rfl, by simp [byteSize], .nil, open_⟩

/-- A text that breaks off behind trivia breaks off. -/
theorem skip (skipped : Trivia brackets gap text)
    (breaks : BreaksOff (offset + byteSize gap) brackets tokens text) :
    BreaksOff offset brackets tokens (gap ++ text) := by
  obtain ⟨before, space, line, rfl, place, between, last⟩ := breaks
  cases tokens with
  | nil =>
    -- Without a token nothing but trivia stands in front of the continuation.
    have none : byteSize before = 0 := by simpa using place
    have empty : before = [] := by simpa [byteSize] using none
    subst empty
    rw [List.nil_append] at skipped
    exact ⟨[], gap ++ space, line, by simp, by simp [byteSize], skipped.append between, last⟩
  | cons first later =>
    refine ⟨gap ++ before, space, line, by simp, ?_, between, last⟩
    rw [byteSize_append, ← Nat.add_assoc, place, List.getLast?_cons, Option.elim, Option.elim]

/-- A text that breaks off behind a token breaks off. -/
theorem token {token : Token} (starts : token.pos.offset = offset)
    (breaks : BreaksOff token.stop (Context.bracketsAfter brackets token.kind) tokens text) :
    BreaksOff offset brackets (token :: tokens) (token.text.toList ++ text) := by
  obtain ⟨before, space, line, rfl, place, between, last⟩ := breaks
  refine ⟨token.text.toList ++ before, space, line, by simp, ?_, between, last⟩
  rw [byteSize_append, byteSize_toList, ← starts, ← Nat.add_assoc]
  change token.stop + byteSize before = _
  rw [place, List.getLast?_cons]
  cases tokens.getLast? <;> rfl

end BreaksOff

/-- A position that stands some lines and bytes further on. -/
def Position.further (lines bytes : Nat) (pos : Position) : Position :=
  ⟨pos.line + lines, pos.offset + bytes⟩

namespace Context

variable {context other : Context}

/-- A lexeme that does not go on is the same in front of a newline. -/
theorem lexeme_newline_behind {c : Char} {cs : List Char} (finished : ¬Lexeme.Continues c cs)
    (more : List Char) : context.lexeme c (cs ++ '\n' :: more) = context.lexeme c cs := by
  have quoted : Literal.closingRun '\'' (cs ++ '\n' :: more) = Literal.closingRun '\'' cs :=
    Literal.closingRun_newline (by decide) cs more
  simp only [lexeme, Lexeme.read_newline_behind finished, quoted]

/-- A text that breaks off right away has no tokens. -/
theorem tokens_of_continues {c : Char} {cs : List Char} (continues : Lexeme.Continues c cs) :
    context.tokens (c :: cs) = [] := by
  obtain ⟨rfl, line, rfl, unended⟩ := continues
  have all : Lexeme.run (· != '\n') line = line.length := by
    have others : ∀ c ∈ line, (c != '\n') = true := by
      intro c inside
      rw [bne_iff_ne]
      rintro rfl
      exact unended inside
    have whole : (line ++ []).takeWhile (· != '\n') = line ++ [] :=
      List.takeWhile_append_of_pos others
    rw [List.append_nil] at whole
    rw [Lexeme.run, whole]
  have taken : Lexeme.continuationRun line = line.length := by
    simp only [Lexeme.continuationRun, all, List.drop_length]
  have lexeme : context.lexeme '.' ('.' :: '.' :: line) = ⟨none, 2 + line.length⟩ := by
    rw [← taken]
    rfl
  have rest : ('.' :: '.' :: line).drop (2 + line.length) = [] := by simp [Nat.add_comm]
  simp only [tokens, lexeme, rest]

/-- A text that does not break off is read to its end, whatever stands in the line below. -/
theorem tokens_below (context : Context) (cs more : List Char)
    (whole : ¬BreaksOff context.pos.offset context.brackets (context.tokens cs) cs) :
    ∃ final : Context, final.pos = advance context.pos cs ∧
      final.brackets = bracketsBehind context.brackets (context.tokens cs) ∧
      context.tokens (cs ++ '\n' :: more) = context.tokens cs ++ final.tokens ('\n' :: more) := by
  -- The last line is read up to a newline in the text as to its end, unless a continuation has
  -- begun in it.
  have behind {context : Context} {c : Char} {cs : List Char}
      (whole : ¬BreaksOff context.pos.offset context.brackets (context.tokens (c :: cs))
        (c :: cs)) :
      context.lexeme c (cs ++ '\n' :: more) = context.lexeme c cs := by
    refine lexeme_newline_behind (fun continues => whole ?_) more
    rw [tokens_of_continues continues]
    obtain ⟨rfl, line, rfl, unended⟩ := continues
    exact .of_line unended
  induction context, cs using Context.tokens.induct with
  | case1 context =>
    refine ⟨context, by simp [advance], ?_, ?_⟩ <;> simp [tokens, bracketsBehind]
  | case2 context c cs lexeme text silent ih =>
    have split : text ++ cs.drop lexeme.extra = c :: cs :=
      congrArg (c :: ·) (List.take_append_drop _ _)
    have reads : context.tokens (c :: cs) = (context.skip text).tokens (cs.drop lexeme.extra) := by
      rw [tokens, silent]
    obtain ⟨final, pos, brackets, later⟩ := ih fun breaks => whole <| by
      rw [reads, ← split]
      exact .skip (trivia_of_lexeme silent) breaks
    refine ⟨final, ?_, ?_, ?_⟩
    · rw [pos, ← split, advance_append]
      rfl
    · rw [brackets, reads]
      rfl
    · rw [List.cons_append, tokens_append_of_none (behind whole) silent, reads]
      exact later
  | case3 context c cs lexeme text kind known ih =>
    have split : text ++ cs.drop lexeme.extra = c :: cs :=
      congrArg (c :: ·) (List.take_append_drop _ _)
    have reads : context.tokens (c :: cs) =
        context.token kind text :: (context.push kind text).tokens (cs.drop lexeme.extra) := by
      rw [tokens, known]
    have spelled : (context.token kind text).text.toList = text := String.toList_ofList
    obtain ⟨final, pos, brackets, later⟩ := ih fun breaks => whole <| by
      have breaks : BreaksOff (context.token kind text).stop
          (bracketsAfter context.brackets (context.token kind text).kind)
          ((context.push kind text).tokens (cs.drop lexeme.extra)) (cs.drop lexeme.extra) := breaks
      have joined := breaks.token rfl
      rwa [spelled, split, ← reads] at joined
    refine ⟨final, ?_, ?_, ?_⟩
    · rw [pos, ← split, advance_append]
      rfl
    · rw [brackets, reads]
      rfl
    · rw [List.cons_append, tokens_append_of_some (behind whole) known, reads]
      exact congrArg (context.token kind text :: ·) later

/-- Contexts in which the same lexemes are found, and which stay so, have tokens that look the same
when their single tokens do. -/
theorem tokens_map_eq {view : Type} {first second : Token → view}
    {Related : Context → Context → Prop}
    (lexeme : ∀ {context other}, Related context other →
      ∀ c cs, other.lexeme c cs = context.lexeme c cs)
    (skip : ∀ {context other}, Related context other →
      ∀ text, Related (context.skip text) (other.skip text))
    (push : ∀ {context other}, Related context other →
      ∀ kind text, Related (context.push kind text) (other.push kind text))
    (token : ∀ {context other}, Related context other →
      ∀ kind text, first (context.token kind text) = second (other.token kind text))
    (context other : Context) (related : Related context other) (cs : List Char) :
    (context.tokens cs).map first = (other.tokens cs).map second := by
  induction context, cs using Context.tokens.induct generalizing other with
  | case1 => simp only [tokens, List.map_nil]
  | case2 context c cs piece text silent ih =>
    rw [tokens, tokens, lexeme related, silent]
    exact ih _ (skip related text)
  | case3 context c cs piece text kind known ih =>
    rw [tokens, tokens, lexeme related, known]
    exact congrArg₂ List.cons (token related kind text) (ih _ (push related kind text))

/-- One context stands in a text where the other stands in the same text further down. It may have
no token behind it where the other has one that ends a statement. -/
structure Resumes (lines bytes : Nat) (context other : Context) : Prop where
  pos : other.pos = context.pos.further lines bytes
  brackets : other.brackets = context.brackets
  last : (context.last = none ∧ ∃ last, other.last = some last ∧ last.kind = .newline) ∨
    ∃ last, context.last = some last ∧ other.last = some (last.relocate (.further lines bytes)) ∧
      other.lastStarts = context.lastStarts

namespace Resumes

variable {lines bytes : Nat} {text : List Char} {kind : Kind}

/-- An apostrophe stands for the same in both places. -/
theorem transposes (resumes : Resumes lines bytes context other) :
    other.transposes = context.transposes := by
  unfold Context.transposes
  obtain ⟨fresh, last, known, newline⟩ | ⟨last, here, there, starts⟩ := resumes.last
  · simp only [fresh, known, newline, Kind.endsValue, Bool.false_and]
  · have adjacent : ((last.relocate (.further lines bytes)).stop == other.pos.offset) =
        (last.stop == context.pos.offset) := by
      simp only [resumes.pos, Token.stop, Token.relocate, Position.further, beq_eq_beq]
      omega
    simp only [here, there, adjacent, resumes.brackets, starts]
    rfl

/-- The same lexeme is read in both places. -/
theorem lexeme (resumes : Resumes lines bytes context other) (c : Char) (cs : List Char) :
    other.lexeme c cs = context.lexeme c cs := by
  simp only [Context.lexeme, resumes.transposes, resumes.brackets]

/-- The same text moves both places by the same lines and bytes. -/
theorem advance (resumes : Resumes lines bytes context other) (text : List Char) :
    Context.advance other.pos text = (Context.advance context.pos text).further lines bytes := by
  simp only [resumes.pos, Context.advance, Position.further, Position.mk.injEq]
  omega

/-- One context resumes the other behind text that makes no token. -/
theorem skip (resumes : Resumes lines bytes context other) (text : List Char) :
    Resumes lines bytes (context.skip text) (other.skip text) :=
  ⟨resumes.advance text, resumes.brackets, resumes.last⟩

/-- The same token is made further down, at the position that is moved. -/
theorem token (resumes : Resumes lines bytes context other) (kind : Kind) (text : List Char) :
    other.token kind text = (context.token kind text).relocate (.further lines bytes) := by
  rw [Context.token, resumes.pos]
  rfl

/-- A token begins a statement in both places or in none. -/
theorem atStatementStart (resumes : Resumes lines bytes context other) :
    other.atStatementStart = context.atStatementStart := by
  unfold Context.atStatementStart
  obtain ⟨fresh, last, known, newline⟩ | ⟨last, here, there, -⟩ := resumes.last
  · simp only [fresh, known, newline, Kind.isSeparator]
  · simp only [here, there]
    rfl

/-- One context resumes the other behind the same token. -/
theorem push (resumes : Resumes lines bytes context other) (kind : Kind) (text : List Char) :
    Resumes lines bytes (context.push kind text) (other.push kind text) :=
  ⟨resumes.advance text, by rw [Context.push, Context.push, resumes.brackets],
    .inr ⟨context.token kind text, rfl, congrArg some (resumes.token kind text),
      resumes.atStatementStart⟩⟩

/-- The same tokens are read in both places. -/
theorem tokens (context other : Context) (resumes : Resumes lines bytes context other)
    (cs : List Char) :
    other.tokens cs = (context.tokens cs).map (Token.relocate (.further lines bytes)) := by
  have same : (context.tokens cs).map (Token.relocate (.further lines bytes)) =
      (other.tokens cs).map id :=
    tokens_map_eq (fun resumes => resumes.lexeme) (fun resumes => resumes.skip)
      (fun resumes => resumes.push) (fun resumes kind text => (resumes.token kind text).symm)
      context other resumes cs
  rw [same, List.map_id]

end Resumes

/-- A newline outside of all brackets is a token, and the line below is read like a text of its own.
-/
theorem tokens_newline (closed : context.brackets = []) (cs : List Char) :
    context.tokens ('\n' :: cs) = context.token .newline ['\n'] ::
      (start.tokens cs).map (Token.relocate (.further context.pos.line (context.pos.offset + 1))) := by
  have lexeme : context.lexeme '\n' cs = ⟨some .newline, 0⟩ := by
    have plain : Lexeme.read '\n' cs = ⟨some .newline, 0⟩ := rfl
    simp [Context.lexeme, plain, closed]
  have resumes : Resumes context.pos.line (context.pos.offset + 1) start
      (context.push .newline ['\n']) := by
    refine ⟨?_, ?_, .inl ⟨rfl, _, rfl, rfl⟩⟩
    · have one : "\n".utf8ByteSize = 1 := rfl
      simp [push, advance, Position.further, start, one, Nat.add_comm]
    · simp [push, closed, bracketsAfter, Kind.opensBracket, Kind.closesBracket, start]
  rw [tokens, lexeme]
  exact congrArg _ (Resumes.tokens _ _ resumes cs)

end Context

/-- The tokens of a text go on in a line below. When the brackets of a text are closed and its last
line is not continued, a newline behind it is a token, and a further text behind the newline has the
tokens that it has alone, as many lines and bytes further on as stand in front of it. -/
theorem Token.ofText_below (text more : String)
    (closed : bracketsBehind [] (Token.ofText text) = []) (whole : ¬Token.EndsContinued text) :
    Token.ofText (text ++ "\n" ++ more) = Token.ofText text ++
      ⟨.newline, "\n", ⟨text.toList.count '\n' + 1, text.utf8ByteSize⟩⟩ ::
        (Token.ofText more).map
          (Token.relocate (.further (text.toList.count '\n' + 1) (text.utf8ByteSize + 1))) := by
  obtain ⟨final, pos, brackets, reads⟩ :=
    Context.start.tokens_below text.toList more.toList whole
  have place : final.pos = ⟨text.toList.count '\n' + 1, text.utf8ByteSize⟩ := by
    simp [pos, Context.advance, Context.start, Nat.add_comm]
  have chars : (text ++ "\n" ++ more).toList = text.toList ++ '\n' :: more.toList := by
    simp
  rw [Token.ofText, chars, reads, Context.tokens_newline (brackets.trans closed), Context.token, place]
  rfl

/-- Behind a transposed matrix that was written in two lines, an apostrophe opens a string again. -/
theorem Token.ofText_below_transpose :
    bracketsBehind [] (Token.ofText "x = [1 ...\n2]'") = [] ∧
      ¬Token.EndsContinued "x = [1 ...\n2]'" ∧
      Token.ofText ("x = [1 ...\n2]'" ++ "\n" ++ "disp 'hi'") =
        [⟨.ident, "x", ⟨1, 0⟩⟩, ⟨.assign, "=", ⟨1, 2⟩⟩, ⟨.leftBracket, "[", ⟨1, 4⟩⟩,
          ⟨.number, "1", ⟨1, 5⟩⟩, ⟨.number, "2", ⟨2, 11⟩⟩, ⟨.rightBracket, "]", ⟨2, 12⟩⟩,
          ⟨.transpose, "'", ⟨2, 13⟩⟩, ⟨.newline, "\n", ⟨2, 14⟩⟩, ⟨.ident, "disp", ⟨3, 15⟩⟩,
          ⟨.string, "'hi'", ⟨3, 20⟩⟩] := by
  have front : Token.ofText "x = [1 ...\n2]'" =
      [⟨.ident, "x", ⟨1, 0⟩⟩, ⟨.assign, "=", ⟨1, 2⟩⟩, ⟨.leftBracket, "[", ⟨1, 4⟩⟩,
        ⟨.number, "1", ⟨1, 5⟩⟩, ⟨.number, "2", ⟨2, 11⟩⟩, ⟨.rightBracket, "]", ⟨2, 12⟩⟩,
        ⟨.transpose, "'", ⟨2, 13⟩⟩] := by decide +kernel
  have back : Token.ofText "disp 'hi'" =
      [⟨.ident, "disp", ⟨1, 0⟩⟩, ⟨.string, "'hi'", ⟨1, 5⟩⟩] := by decide +kernel
  have closed : bracketsBehind [] (Token.ofText "x = [1 ...\n2]'") = [] := by
    rw [front]
    rfl
  have whole : ¬Token.EndsContinued "x = [1 ...\n2]'" := by
    rintro ⟨before, gap, line, text, place, -, -⟩
    have ends : 0 + byteSize before = 14 := by
      rw [front] at place
      exact place
    have size : byteSize "x = [1 ...\n2]'".toList = 14 := by decide +kernel
    have dots : 3 ≤ byteSize ('.' :: '.' :: '.' :: line) := by
      have three : byteSize ['.', '.', '.'] = 3 := by decide +kernel
      have split := byteSize_append ['.', '.', '.'] line
      simp only [List.cons_append, List.nil_append] at split
      omega
    rw [text, byteSize_append, byteSize_append] at size
    omega
  refine ⟨closed, whole, (Token.ofText_below _ "disp 'hi'" closed whole).trans ?_⟩
  rw [front, back]
  rfl

end MatlabFront
