import MatlabFront.Proofs.Token.Spelled

/-!
# Texts of tokens

The texts of the tokens of a text, with a blank between any two, are read as the same tokens again.
Comments, continuations and blanks are left out of such a text, and so are the newlines that make no
token. Two tokens that stood side by side neither join nor fall apart. Only what an apostrophe
stands for depends on the gap before it, so tokens that an apostrophe begins are excepted, and so
are errors.
-/

namespace MatlabFront

/-- What a token says apart from where it stands. -/
def Token.spelling (token : Token) : Kind × String := (token.kind, token.text)

/-- A token that is found without looking at what stands in front of it: neither a transpose nor a
string in apostrophes, and no error. -/
def Token.StandsAlone (token : Token) : Prop :=
  token.kind ∉ [.error, .transpose] ∧
    ¬(token.kind = .string ∧ token.text.toList.head? = some '\'')

instance (token : Token) : Decidable token.StandsAlone :=
  inferInstanceAs (Decidable (_ ∧ _))

namespace Context

variable {context other : Context} {c : Char} {cs rest : List Char} {kind : Kind}

/-- A token that stands alone is read again from its text in front of what halts, wherever the same
brackets are open. -/
theorem lexeme_respelled (brackets : other.brackets = context.brackets)
    (known : (context.lexeme c cs).kind = some kind)
    (alone : (context.token kind (c :: cs.take (context.lexeme c cs).extra)).StandsAlone)
    (halts : Halts rest) (apart : rest.head? ≠ some '.') :
    other.lexeme c (cs.take (context.lexeme c cs).extra ++ rest) = context.lexeme c cs := by
  obtain ⟨sound, quoted⟩ := alone
  have plain : (Lexeme.read c cs).kind ≠ some .quote := by
    intro quote
    obtain ⟨rfl, among⟩ := @lexeme_of_quote context c cs quote
    rw [known] at among
    simp only [List.mem_cons, Option.some.injEq, List.not_mem_nil, or_false] at among
    obtain rfl | rfl | rfl := among
    · exact sound (by simp [token])
    · exact quoted ⟨rfl, by simp [token]⟩
    · exact sound (by simp [token])
  have same : context.lexeme c cs = Lexeme.read c cs :=
    (lexeme_cases plain).resolve_right fun ⟨_, silent⟩ => by
      rw [silent] at known
      cases known
  have closed : ¬Lexeme.Open c (Lexeme.read c cs) := by
    rw [← same]
    rintro (none | ⟨error, -⟩)
    · cases known.symm.trans none
    · cases known.symm.trans error
      exact sound (by simp [token])
  refine lexeme_congr brackets plain ?_
  rw [same]
  exact Lexeme.read_cut (.inl rfl) (fun _ => closed) halts fun dot => absurd dot apart

/-- The texts of the tokens of a text, with blanks between them, are read as those tokens wherever
the same brackets are open. -/
theorem tokens_intercalate (context other : Context) (cs : List Char)
    (brackets : other.brackets = context.brackets)
    (alone : ∀ token ∈ context.tokens cs, token.StandsAlone) :
    (other.tokens ([' '].intercalate
        ((context.tokens cs).map fun token => token.text.toList))).map Token.spelling =
      (context.tokens cs).map Token.spelling := by
  induction context, cs using Context.tokens.induct generalizing other with
  | case1 context => simp [tokens]
  | case2 context c cs lexeme text silent ih =>
    have reads : context.tokens (c :: cs) = (context.skip text).tokens (cs.drop lexeme.extra) := by
      rw [tokens, silent]
    rw [reads] at alone ⊢
    exact ih other brackets alone
  | case3 context c cs lexeme text kind known ih =>
    have reads : context.tokens (c :: cs) =
        context.token kind text :: (context.push kind text).tokens (cs.drop lexeme.extra) := by
      rw [tokens, known]
    rw [reads] at alone ⊢
    obtain ⟨first, later⟩ := List.forall_mem_cons.mp alone
    -- Behind the text of the token stands nothing, or a blank and the texts of the later ones.
    have step {rest : List Char} (halts : Halts rest) (apart : rest.head? ≠ some '.') :
        other.tokens (text ++ rest) =
          other.token kind text :: (other.push kind text).tokens rest := by
      refine tokens_of_lexeme ?_
      rw [lexeme_respelled brackets known first halts apart, List.length_take,
        Nat.min_eq_left (context.lexeme_le c cs), ← known]
    have inside : (other.push kind text).brackets = (context.push kind text).brackets :=
      congrArg (bracketsAfter · kind) brackets
    have spelled : (context.token kind text).text.toList = text := String.toList_ofList
    rw [List.map_cons, List.map_cons, spelled]
    refine .trans ?_ (congrArg ((kind, String.ofList text) :: ·)
      (ih ((other.push kind text).skip [' ']) inside later))
    cases (context.push kind text).tokens (cs.drop lexeme.extra) with
    | nil =>
      have last := @step [] (by simp [Halts]) (by simp)
      rw [List.append_nil] at last
      rw [List.map_nil, List.intercalate_singleton, last]
      simp [tokens, Token.spelling, token]
    | cons next others =>
      have blank (more : List Char) : Halts (' ' :: more) := .of_cons (by decide)
      rw [List.map_cons, List.intercalate_cons_cons, List.append_assoc, List.singleton_append,
        step (blank _) (by simp), tokens_blank]
      rfl

end Context

/-- The texts of the tokens of a text that holds no errors, no transposes and no strings in
apostrophes, with a blank between any two, make a text with the same tokens. -/
theorem Token.ofText_intercalate (text : String)
    (alone : ∀ token ∈ Token.ofText text, token.StandsAlone) :
    (Token.ofText (" ".intercalate ((Token.ofText text).map Token.text))).map Token.spelling =
      (Token.ofText text).map Token.spelling := by
  rw [Token.ofText, String.toList_intercalate, List.map_map]
  exact Context.start.tokens_intercalate Context.start text.toList rfl alone

/-- The number in front of a dotted operator keeps no point, and a newline in parentheses, a comment
and a continuation are left out. -/
theorem Token.ofText_intercalate_dotted :
    (∀ token ∈ Token.ofText "y=f(1.*x,\n2.) % scaled\n+ ...\n\"a\"", token.StandsAlone) ∧
      " ".intercalate ((Token.ofText "y=f(1.*x,\n2.) % scaled\n+ ...\n\"a\"").map Token.text) =
        "y = f ( 1 .* x , 2. ) \n + \"a\"" ∧
      (Token.ofText "y = f ( 1 .* x , 2. ) \n + \"a\"").map Token.spelling =
        (Token.ofText "y=f(1.*x,\n2.) % scaled\n+ ...\n\"a\"").map Token.spelling := by
  have read : Token.ofText "y=f(1.*x,\n2.) % scaled\n+ ...\n\"a\"" =
      [⟨.ident, "y", ⟨1, 0⟩⟩, ⟨.assign, "=", ⟨1, 1⟩⟩, ⟨.ident, "f", ⟨1, 2⟩⟩,
        ⟨.leftParen, "(", ⟨1, 3⟩⟩, ⟨.number, "1", ⟨1, 4⟩⟩, ⟨.dotStar, ".*", ⟨1, 5⟩⟩,
        ⟨.ident, "x", ⟨1, 7⟩⟩, ⟨.comma, ",", ⟨1, 8⟩⟩, ⟨.number, "2.", ⟨2, 10⟩⟩,
        ⟨.rightParen, ")", ⟨2, 12⟩⟩, ⟨.newline, "\n", ⟨2, 22⟩⟩, ⟨.plus, "+", ⟨3, 23⟩⟩,
        ⟨.string, "\"a\"", ⟨4, 29⟩⟩] := by decide +kernel
  have alone : ∀ token ∈ Token.ofText "y=f(1.*x,\n2.) % scaled\n+ ...\n\"a\"",
      token.StandsAlone := by
    rw [read]
    decide
  have texts : " ".intercalate
      ((Token.ofText "y=f(1.*x,\n2.) % scaled\n+ ...\n\"a\"").map Token.text) =
        "y = f ( 1 .* x , 2. ) \n + \"a\"" := by
    rw [read]
    decide
  have same := Token.ofText_intercalate "y=f(1.*x,\n2.) % scaled\n+ ...\n\"a\"" alone
  rw [texts] at same
  exact ⟨alone, texts, same⟩

end MatlabFront
