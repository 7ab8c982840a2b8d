import MatlabFront.Proofs.Token.Lines
import MatlabFront.Proofs.Token.Respelled

/-!
# Continued lines

Behind a token, three dots with the line they stand in separate what comes next just as a blank
does. The tokens of the text do not tell them apart, though an apostrophe looks at the gap before
it. Two tokens are exceptions, because a dot behind them is read together with them: an integer
takes the first dot of the continuation as its point, and a dot makes a continuation with the first
two.
-/

namespace MatlabFront

/-- A token with which a dot behind it is read: a dot, or digits only. -/
def Token.TakesDot (token : Token) : Prop :=
  token.text = "." ∨ ∀ c ∈ token.text.toList, c.isDigit = true

/-- A literal that has not closed. -/
def Token.Unclosed (token : Token) : Prop :=
  token.kind = .error ∧ ∃ quote ∈ ['\'', '"'], token.text.toList.head? = some quote

namespace Context

variable {context other : Context} {kind : Kind} {text : List Char}

/-- Two contexts behind tokens of one kind, in the same brackets, which both touch what comes next
or both stand apart from it. -/
structure Alike (context other : Context) : Prop where
  brackets : other.brackets = context.brackets
  lastStarts : other.lastStarts = context.lastStarts
  last : ∃ here there, context.last = some here ∧ other.last = some there ∧
    there.kind = here.kind ∧ here.stop ≤ context.pos.offset ∧ there.stop ≤ other.pos.offset ∧
    (there.stop = other.pos.offset ↔ here.stop = context.pos.offset)

namespace Alike

/-- An apostrophe stands for the same in both places. -/
theorem transposes (alike : Alike context other) : other.transposes = context.transposes := by
  obtain ⟨here, there, before, behind, kind, -, -, touches⟩ := alike.last
  have adjacent : (there.stop == other.pos.offset) = (here.stop == context.pos.offset) := by
    rw [Bool.eq_iff_iff, beq_iff_eq, beq_iff_eq, touches]
  simp only [Context.transposes, before, behind, kind, adjacent, alike.brackets, alike.lastStarts]

/-- The same lexeme is read in both places. -/
theorem lexeme (alike : Alike context other) (c : Char) (cs : List Char) :
    other.lexeme c cs = context.lexeme c cs := by
  simp only [Context.lexeme, alike.transposes, alike.brackets]

/-- Contexts that are alike are so behind text that makes no token. -/
theorem skip (alike : Alike context other) (text : List Char) :
    Alike (context.skip text) (other.skip text) := by
  obtain ⟨here, there, before, behind, kind, left, right, touches⟩ := alike.last
  refine ⟨alike.brackets, alike.lastStarts, here, there, before, behind, kind, ?_⟩
  simp only [Context.skip, advance]
  omega

/-- Contexts that are alike are so behind the same token. -/
theorem push (alike : Alike context other) (kind : Kind) (text : List Char) :
    Alike (context.push kind text) (other.push kind text) := by
  obtain ⟨here, there, before, behind, same, -⟩ := alike.last
  refine ⟨congrArg (bracketsAfter · kind) alike.brackets, ?_, context.token kind text,
    other.token kind text, rfl, rfl, rfl, Nat.le_refl _, Nat.le_refl _, iff_of_true rfl rfl⟩
  simp only [Context.push, atStatementStart, before, behind, same]

/-- The same tokens are read in both places, apart from where they stand. -/
theorem tokens (alike : Alike context other) (cs : List Char) :
    (context.tokens cs).map Token.spelling = (other.tokens cs).map Token.spelling :=
  tokens_map_eq (fun alike => alike.lexeme) (fun alike => alike.skip) (fun alike => alike.push)
    (fun _ _ _ => rfl) context other alike cs

/-- Behind a token it makes no difference how wide a gap is. -/
theorem gap (context : Context) (kind : Kind) (text : List Char) {front back : List Char}
    (one : front ≠ []) (other : back ≠ []) :
    Alike ((context.push kind text).skip front) ((context.push kind text).skip back) := by
  have wide {cs : List Char} (filled : cs ≠ []) : 0 < (String.ofList cs).utf8ByteSize :=
    Nat.pos_of_ne_zero fun none => filled (by simpa using none)
  have front := wide one
  have back := wide other
  refine ⟨rfl, rfl, _, _, rfl, rfl, rfl, ?_⟩
  have stop : (context.token kind text).stop = (context.push kind text).pos.offset := rfl
  simp only [Context.skip, advance, stop]
  omega

end Alike

/-- A continuation is passed over with its line and the newline. -/
theorem tokens_continuation {line : List Char} (inside : '\n' ∉ line) (more : List Char) :
    context.tokens ('.' :: '.' :: '.' :: (line ++ '\n' :: more)) =
      (context.skip ('.' :: '.' :: '.' :: (line ++ ['\n']))).tokens more := by
  have goes : ∀ c ∈ line, (c != '\n') = true := by
    intro c among
    rw [bne_iff_ne]
    rintro rfl
    exact inside among
  have ends : ∀ c ∈ ('\n' :: more).head?, (c != '\n') = false := by
    rintro _ ⟨⟩
    rfl
  have reach : Lexeme.continuationRun (line ++ '\n' :: more) = line.length + 1 := by
    simp only [Lexeme.continuationRun, Lexeme.run_append goes ends, List.drop_left]
  have lexeme : context.lexeme '.' ('.' :: '.' :: (line ++ '\n' :: more)) =
      ⟨none, 2 + Lexeme.continuationRun (line ++ '\n' :: more)⟩ := rfl
  have split : line ++ '\n' :: more = (line ++ ['\n']) ++ more := by simp
  have length : (line ++ ['\n']).length = line.length + 1 := List.length_append
  rw [tokens, lexeme, reach, split, ← length, Nat.add_comm]
  simp only [List.take_succ_cons, List.drop_succ_cons, List.take_left, List.drop_left]

/-- A piece of text that is one lexeme, and the token that it makes. -/
def Makes (context : Context) (c : Char) (cs : List Char) (last : Token) : Prop :=
  ∃ kind, context.lexeme c cs = ⟨some kind, cs.length⟩ ∧ last = context.token kind (c :: cs)

/-- A lexeme in front of further ones is read again when the text goes on, if it is not the first of
two dots. -/
theorem lexeme_before {c : Char} {cs : List Char}
    (inside : (context.lexeme c cs).extra < cs.length) :
    (c = '.' ∧ cs = ['.']) ∨ ∀ rest, Halts rest →
      context.lexeme c (cs ++ rest) = context.lexeme c cs := by
  by_cases takes : Lexeme.TakesDot c cs
  · obtain ⟨digit, digits⟩ | ⟨dot, few⟩ := takes
    · have number : Lexeme.read c (cs ++ []) = ⟨some .number, cs.length⟩ :=
        Lexeme.read_integer digit digits nofun
      rw [List.append_nil] at number
      rw [lexeme_of_read number Kind.noConfusion Kind.noConfusion] at inside
      exact absurd inside (Nat.lt_irrefl _)
    · simp only [List.mem_cons, List.not_mem_nil, or_false] at few
      obtain rfl | rfl := few
      · exact absurd inside (Nat.not_lt_zero _)
      · exact .inl ⟨dot, rfl⟩
  · exact .inr fun rest halts => lexeme_append (fun same => absurd same (Nat.ne_of_lt inside)) halts
      fun _ => takes

/-- A dot that begins nothing longer is a token of its own. -/
theorem tokens_dot {rest : List Char} (lone : Lexeme.read '.' rest = ⟨some .dot, 0⟩) :
    context.tokens ('.' :: rest) =
      context.token .dot ['.'] :: (context.push .dot ['.']).tokens rest := by
  have known : context.lexeme '.' ([] ++ rest) = ⟨some .dot, ([] : List Char).length⟩ :=
    lexeme_of_read lone Kind.noConfusion Kind.noConfusion
  exact tokens_of_lexeme known

/-- The tokens of a text that ends with a token are those in front of the last one, or of the last
two if these are dots, and those of what is left of the text. What stands behind the text does not
change those in front. -/
theorem tokens_last (context : Context) (cs : List Char) {last : Token}
    (ends : (context.tokens cs).getLast? = some last)
    (whole : last.stop = context.pos.offset + byteSize cs) :
    ∃ (front : List Token) (inner : Context) (c : Char) (tail : List Char),
      context.tokens cs = front ++ inner.tokens (c :: tail) ∧
      (∀ rest, Halts rest →
        context.tokens (cs ++ rest) = front ++ inner.tokens (c :: (tail ++ rest))) ∧
      (inner.Makes c tail last ∨ (c = '.' ∧ tail = ['.']) ∧ last.text = ".") := by
  induction context, cs using Context.tokens.induct with
  | case1 context =>
    rw [tokens] at ends
    cases ends
  | case2 context c cs lexeme text silent ih =>
    have split : text ++ cs.drop lexeme.extra = c :: cs :=
      congrArg (c :: ·) (List.take_append_drop _ _)
    have taken := context.lexeme_le c cs
    have reads : context.tokens (c :: cs) = (context.skip text).tokens (cs.drop lexeme.extra) := by
      rw [tokens, silent]
    rw [reads] at ends ⊢
    have inside : lexeme.extra < cs.length := by
      refine Nat.lt_of_le_of_ne taken fun reach => ?_
      rw [reach, List.drop_length, tokens] at ends
      cases ends
    obtain ⟨rfl, rfl⟩ | same := lexeme_before inside
    · cases silent
    obtain ⟨front, inner, d, tail, left, right, last⟩ := ih ends (by
      rw [whole, ← split, byteSize_append]
      exact (Nat.add_assoc _ _ _).symm)
    refine ⟨front, inner, d, tail, left, fun rest halts => ?_, last⟩
    rw [← right rest halts, List.cons_append, tokens_append_of_none (same rest halts) silent]
  | case3 context c cs lexeme text kind known ih =>
    have split : text ++ cs.drop lexeme.extra = c :: cs :=
      congrArg (c :: ·) (List.take_append_drop _ _)
    have taken := context.lexeme_le c cs
    have reads : context.tokens (c :: cs) =
        context.token kind text :: (context.push kind text).tokens (cs.drop lexeme.extra) := by
      rw [tokens, known]
    obtain reach | inside := Nat.eq_or_lt_of_le taken
    · -- The text is the last lexeme.
      have all : text = c :: cs := congrArg (c :: ·) (by rw [reach, List.take_length])
      refine ⟨[], context, c, cs, rfl, fun _ _ => rfl, .inl ⟨kind, ?_, ?_⟩⟩
      · rw [← reach, ← known]
      · rw [reads, reach, List.drop_length, tokens, all] at ends
        exact (Option.some.inj ends).symm
    obtain ⟨rfl, rfl⟩ | same := lexeme_before inside
    · refine ⟨[], context, '.', ['.'], rfl, fun _ _ => rfl, .inr ⟨⟨rfl, rfl⟩, ?_⟩⟩
      rw [tokens_dot rfl, tokens_dot rfl, tokens] at ends
      exact (Option.some.inj ends).symm ▸ rfl
    · rw [reads] at ends ⊢
      have later : ((context.push kind text).tokens (cs.drop lexeme.extra)).getLast? =
          some last := by
        cases left : (context.push kind text).tokens (cs.drop lexeme.extra) with
        | nil =>
          -- A single token would stop in front of what is left.
          rw [left] at ends
          obtain rfl := Option.some.inj ends
          replace whole : context.pos.offset + byteSize text =
              context.pos.offset + byteSize (c :: cs) := whole
          rw [← split, byteSize_append] at whole
          have none : byteSize (cs.drop lexeme.extra) = 0 := by omega
          have empty : cs.drop lexeme.extra = [] := by simpa [byteSize] using none
          exact absurd (List.drop_eq_nil_iff.mp empty) (Nat.not_le.mpr inside)
        | cons next others => rwa [left, List.getLast?_cons_cons] at ends
      obtain ⟨front, inner, d, tail, left, right, last⟩ := ih later (by
        rw [whole, ← split, byteSize_append]
        exact (Nat.add_assoc _ _ _).symm)
      refine ⟨context.token kind text :: front, inner, d, tail, congrArg _ left,
        fun rest halts => ?_, last⟩
      rw [List.cons_append, List.cons_append, ← right rest halts,
        tokens_append_of_some (same rest halts) known]

/-- Digits take the first dot of a continuation as their point, and the other two dots are
tokens. -/
theorem three_le_of_digits {c : Char} {cs : List Char} (digit : c.isDigit = true)
    (digits : ∀ d ∈ cs, d.isDigit = true) :
    3 ≤ (context.tokens (c :: (cs ++ ['.', '.', '.', '\n']))).length := by
  obtain ⟨blank, comment, name⟩ := Lexeme.plain_of_isDigit digit
  have reach : Lexeme.numberRun (cs ++ ['.', '.', '.', '\n']) = (cs ++ ['.']).length := by
    have stops : ∀ c ∈ ['.', '.', '.', '\n'].head?, c.isDigit = false := by
      rintro _ ⟨⟩
      rfl
    rw [Lexeme.numberRun_eq, Lexeme.run_append digits stops, List.drop_left, List.length_append]
    rfl
  have number : Lexeme.read c ((cs ++ ['.']) ++ ['.', '.', '\n']) =
      ⟨some .number, (cs ++ ['.']).length⟩ := by
    rw [List.append_assoc, List.singleton_append, Lexeme.read, if_neg blank, if_neg comment,
      if_neg name, if_pos digit, reach]
  have known := @lexeme_of_read context _ _ _ _ number Kind.noConfusion Kind.noConfusion
  have split : c :: (cs ++ ['.', '.', '.', '\n']) = c :: ((cs ++ ['.']) ++ ['.', '.', '\n']) := by
    simp
  rw [split, tokens_of_lexeme known, tokens_dot rfl, tokens_dot rfl]
  simp only [List.length_cons]
  omega

/-- A token is read in front of what halts as at the end of the text, if it is no open literal and a
dot is not read together with it. -/
theorem tokens_of_token {c : Char} {cs rest : List Char}
    (known : context.lexeme c cs = ⟨some kind, cs.length⟩)
    (closed : ¬(context.token kind (c :: cs)).Unclosed) (halts : Halts rest)
    (apart : rest.head? = some '.' → ¬(context.token kind (c :: cs)).TakesDot) :
    context.tokens (c :: (cs ++ rest)) =
      context.token kind (c :: cs) :: (context.push kind (c :: cs)).tokens rest := by
  refine tokens_of_lexeme ?_
  rw [lexeme_append _ halts, known]
  · intro dot takes
    refine apart dot ?_
    obtain ⟨digit, digits⟩ | ⟨rfl, few⟩ := takes
    · exact .inr (by simpa [token] using ⟨digit, digits⟩)
    · simp only [List.mem_cons, List.not_mem_nil, or_false] at few
      obtain rfl | rfl := few
      · exact .inl rfl
      · cases known
  · rw [known]
    rintro - (silent | ⟨error, quote⟩)
    · cases silent
    · exact closed ⟨Option.some.inj error, c, quote, by simp [token]⟩

/-- The dots in front of a continuation begin it. -/
theorem tokens_dots {line : List Char} (inside : '\n' ∉ line) :
    context.tokens ('.' :: '.' :: '.' :: (line ++ ['\n'])) = [] := by
  rw [tokens_continuation inside [], tokens]

namespace Makes

variable {c : Char} {cs : List Char} {last : Token} (makes : context.Makes c cs last)
  (closed : ¬last.Unclosed)
include makes closed

/-- Behind a token with which no dot is read, a continuation is passed over as a blank is. -/
theorem tokens_continued (apart : ¬last.TakesDot) {line : List Char} (inside : '\n' ∉ line)
    (more : List Char) :
    (context.tokens (c :: (cs ++ '.' :: '.' :: '.' :: (line ++ '\n' :: more)))).map Token.spelling =
      (context.tokens (c :: (cs ++ ' ' :: more))).map Token.spelling := by
  obtain ⟨kind, known, rfl⟩ := makes
  have dots : Halts ('.' :: '.' :: '.' :: (line ++ '\n' :: more)) := .of_cons (by decide)
  have blank : Halts (' ' :: more) := .of_cons (by decide)
  have gap := Alike.gap context kind (c :: cs)
    (List.cons_ne_nil '.' ('.' :: '.' :: (line ++ ['\n']))) (List.cons_ne_nil ' ' [])
  rw [tokens_of_token known closed dots fun _ => apart, tokens_of_token known closed blank nofun,
    tokens_continuation inside, tokens_blank, List.map_cons, List.map_cons, gap.tokens]

/-- A token with which a dot is read is one token in front of a blank. In front of a continuation it
is none, if it is a dot, or else the dots that are left of the continuation are tokens too. -/
theorem length_continued (takes : last.TakesDot) :
    (context.tokens (c :: (cs ++ ['.', '.', '.', '\n']))).length ≠
      (context.tokens (c :: (cs ++ [' ']))).length := by
  obtain ⟨kind, known, rfl⟩ := makes
  have blank : Halts [' '] := .of_cons (by decide)
  have one : (context.tokens (c :: (cs ++ [' ']))).length = 1 := by
    rw [tokens_of_token known closed blank nofun, tokens_blank, tokens]
    rfl
  rw [one]
  obtain dot | digits := takes
  · have chars : c :: cs = ['.'] := by simpa [token] using congrArg String.toList dot
    obtain ⟨rfl, rfl⟩ := List.cons.inj chars
    have none : context.tokens ('.' :: ([] ++ ['.', '.', '.', '\n'])) = [] :=
      @tokens_dots context ['.'] (by decide)
    rw [none]
    exact Nat.zero_ne_one
  · obtain ⟨digit, others⟩ : c.isDigit = true ∧ ∀ d ∈ cs, d.isDigit = true := by
      simpa [token] using digits
    have three := @three_le_of_digits context c cs digit others
    omega

end Makes

end Context

/-- A continuation behind a token separates it from what comes next just as a blank does, whatever
stands in its line and behind it, exactly when the token is no dot and no integer. -/
theorem Token.ofText_continued_iff (text : String) {last : Token}
    (ends : (Token.ofText text).getLast? = some last) (whole : last.stop = text.utf8ByteSize)
    (closed : ¬last.Unclosed) :
    (∀ line more : String, '\n' ∉ line.toList →
      (Token.ofText (text ++ "..." ++ line ++ "\n" ++ more)).map Token.spelling =
        (Token.ofText (text ++ " " ++ more)).map Token.spelling) ↔ ¬last.TakesDot := by
  obtain ⟨front, inner, c, tail, -, reads, left⟩ := Context.start.tokens_last text.toList ends (by
    rw [whole, byteSize_toList]
    exact (Nat.zero_add _).symm)
  have continued (line more : String) :
      Token.ofText (text ++ "..." ++ line ++ "\n" ++ more) = front ++ inner.tokens
        (c :: (tail ++ '.' :: '.' :: '.' :: (line.toList ++ '\n' :: more.toList))) := by
    have chars : (text ++ "..." ++ line ++ "\n" ++ more).toList =
        text.toList ++ '.' :: '.' :: '.' :: (line.toList ++ '\n' :: more.toList) := by simp
    rw [Token.ofText, chars]
    exact reads _ (.of_cons (by decide))
  have spaced (more : String) : Token.ofText (text ++ " " ++ more) = front ++
      inner.tokens (c :: (tail ++ ' ' :: more.toList)) := by
    have chars : (text ++ " " ++ more).toList = text.toList ++ ' ' :: more.toList := by simp
    rw [Token.ofText, chars]
    exact reads _ (.of_cons (by decide))
  constructor
  · intro same takes
    have lengths := congrArg List.length (same "" "" (by simp))
    rw [continued, spaced, List.length_map, List.length_map, List.length_append,
      List.length_append] at lengths
    replace lengths : (inner.tokens (c :: (tail ++ ['.', '.', '.', '\n']))).length =
        (inner.tokens (c :: (tail ++ [' ']))).length := Nat.add_left_cancel lengths
    obtain makes | ⟨⟨rfl, rfl⟩, -⟩ := left
    · exact makes.length_continued closed takes lengths
    · have none : inner.tokens ('.' :: (['.'] ++ ['.', '.', '.', '\n'])) = [] :=
        @Context.tokens_dots inner ['.', '.'] (by decide)
      have two : inner.tokens ('.' :: (['.'] ++ [' '])) ≠ [] := by
        rw [List.singleton_append, Context.tokens_dot rfl]
        exact List.cons_ne_nil _ _
      rw [none] at lengths
      exact two (List.eq_nil_of_length_eq_zero lengths.symm)
  · intro apart line more inside
    obtain makes | ⟨-, dot⟩ := left
    · rw [continued, spaced, List.map_append, List.map_append,
        makes.tokens_continued closed apart inside]
    · exact absurd (.inl dot) apart

/-- Behind a name in a matrix an apostrophe opens a string, after a continuation as after a
blank. -/
theorem Token.ofText_continued_name :
    (Token.ofText "y = [x").getLast? = some ⟨.ident, "x", ⟨1, 5⟩⟩ ∧
      (Token.mk .ident "x" ⟨1, 5⟩).stop = "y = [x".utf8ByteSize ∧
      ¬(Token.mk .ident "x" ⟨1, 5⟩).Unclosed ∧ ¬(Token.mk .ident "x" ⟨1, 5⟩).TakesDot ∧
      (Token.ofText ("y = [x" ++ "..." ++ " more" ++ "\n" ++ "'s']")).map Token.spelling =
        [(.ident, "y"), (.assign, "="), (.leftBracket, "["), (.ident, "x"), (.string, "'s'"),
          (.rightBracket, "]")] := by
  have read : Token.ofText "y = [x" =
      [⟨.ident, "y", ⟨1, 0⟩⟩, ⟨.assign, "=", ⟨1, 2⟩⟩, ⟨.leftBracket, "[", ⟨1, 4⟩⟩,
        ⟨.ident, "x", ⟨1, 5⟩⟩] := by decide +kernel
  have ends : (Token.ofText "y = [x").getLast? = some ⟨.ident, "x", ⟨1, 5⟩⟩ := by
    rw [read]
    rfl
  have whole : (Token.mk .ident "x" ⟨1, 5⟩).stop = "y = [x".utf8ByteSize := by decide
  have closed : ¬(Token.mk .ident "x" ⟨1, 5⟩).Unclosed :=
    fun unclosed => Kind.noConfusion unclosed.1
  have apart : ¬(Token.mk .ident "x" ⟨1, 5⟩).TakesDot := by
    rintro (dot | digits)
    · exact absurd dot (by decide)
    · exact absurd (digits 'x' (by simp)) (by decide)
  have same := (Token.ofText_continued_iff "y = [x" ends whole closed).mpr apart " more" "'s']"
    (by decide)
  refine ⟨ends, whole, closed, apart, same.trans ?_⟩
  have spaced : Token.ofText ("y = [x" ++ " " ++ "'s']") =
      [⟨.ident, "y", ⟨1, 0⟩⟩, ⟨.assign, "=", ⟨1, 2⟩⟩, ⟨.leftBracket, "[", ⟨1, 4⟩⟩,
        ⟨.ident, "x", ⟨1, 5⟩⟩, ⟨.string, "'s'", ⟨1, 7⟩⟩, ⟨.rightBracket, "]", ⟨1, 10⟩⟩] := by decide +kernel
  rw [spaced]
  rfl

/-- The integer of `1...` takes a dot, and the other two are tokens. -/
theorem Token.ofText_continued_integer :
    (Token.ofText "1").getLast? = some ⟨.number, "1", ⟨1, 0⟩⟩ ∧
      (Token.mk .number "1" ⟨1, 0⟩).stop = "1".utf8ByteSize ∧
      (Token.ofText ("1" ++ "..." ++ "" ++ "\n" ++ "+ 2")).map Token.spelling =
        [(.number, "1."), (.dot, "."), (.dot, "."), (.newline, "\n"), (.plus, "+"),
          (.number, "2")] ∧
      (Token.ofText ("1" ++ " " ++ "+ 2")).map Token.spelling =
        [(.number, "1"), (.plus, "+"), (.number, "2")] := by
  refine ⟨?_, ?_, ?_, ?_⟩
  · decide +kernel
  · decide
  · decide +kernel
  · decide +kernel

end MatlabFront
