import MatlabFront.Proofs.Token.Opening

/-!
# Spelled tokens are read

A word, an integer and a literal are read as tokens from the text in which they are spelled, when
what stands behind them does not go on with them. The rest of the text is read behind them.
-/

namespace MatlabFront

namespace Lexeme

variable {test : Char → Bool} {c : Char} {cs rest : List Char}

/-- A run ends where its test does. -/
theorem run_append (all : ∀ c ∈ cs, test c = true) (ends : ∀ c ∈ rest.head?, test c = false) :
    run test (cs ++ rest) = cs.length := by
  have stops : rest.takeWhile test = [] := by
    cases rest with
    | nil => rfl
    | cons d rest => rw [List.takeWhile_cons, ends d rfl, if_neg Bool.false_ne_true]
  rw [run, List.takeWhile_append_of_pos all, stops, List.append_nil]

/-- What begins a name is neither a blank nor a comment. -/
theorem plain_of_startsName (starts : startsName c = true) :
    ¬isBlank c = true ∧ ¬(c = '%' ∨ c = '#') := by
  constructor
  · intro blank
    simp only [isBlank, Bool.or_eq_true, beq_iff_eq] at blank
    obtain ((rfl | rfl) | rfl) | rfl := blank <;> exact absurd starts (by decide)
  · rintro (rfl | rfl) <;> exact absurd starts (by decide)

/-- What begins a number is neither a blank nor a comment, and begins no name. -/
theorem plain_of_isDigit (digit : c.isDigit = true) :
    ¬isBlank c = true ∧ ¬(c = '%' ∨ c = '#') ∧ ¬startsName c = true := by
  refine ⟨?_, ?_, ?_⟩
  · intro blank
    simp only [isBlank, Bool.or_eq_true, beq_iff_eq] at blank
    obtain ((rfl | rfl) | rfl) | rfl := blank <;> exact absurd digit (by decide)
  · rintro (rfl | rfl) <;> exact absurd digit (by decide)
  · -- The digits stand below all letters.
    intro starts
    have nine : '9'.val.toNat = 57 := rfl
    have upper : 'A'.val.toNat = 65 := rfl
    have lower : 'a'.val.toNat = 97 := rfl
    have letters : c.isAlpha = (decide (c.val ≥ 'A'.val ∧ c.val ≤ 'Z'.val) ||
      (c.val ≥ 'a'.val && c.val ≤ 'z'.val)) := rfl
    simp only [Char.isDigit, ge_iff_le, UInt32.le_iff_toNat_le, Bool.and_eq_true,
      decide_eq_true_eq] at digit
    simp only [startsName, letters, ge_iff_le, UInt32.le_iff_toNat_le, Bool.or_eq_true,
      Bool.and_eq_true, decide_eq_true_eq, beq_iff_eq] at starts
    obtain (⟨letter, -⟩ | ⟨letter, -⟩) | rfl := starts
    · omega
    · omega
    · exact absurd digit (by decide)

/-- A word is read to its end. -/
theorem read_word (starts : startsName c = true) (goes : ∀ d ∈ cs, continuesName d = true)
    (ends : ∀ d ∈ rest.head?, continuesName d = false) :
    read c (cs ++ rest) = ⟨some (wordKind (c :: cs)), cs.length⟩ := by
  obtain ⟨blank, comment⟩ := plain_of_startsName starts
  rw [read, if_neg blank, if_neg comment, if_pos starts, run_append goes ends]
  simp only [List.take_left]

/-- An integer is read to its end. -/
theorem read_integer (digit : c.isDigit = true) (digits : ∀ d ∈ cs, d.isDigit = true)
    (ends : ∀ d ∈ rest.head?, d = ' ' ∨ d = '\n') :
    read c (cs ++ rest) = ⟨some .number, cs.length⟩ := by
  obtain ⟨blank, comment, name⟩ := plain_of_isDigit digit
  have stops : ∀ d ∈ rest.head?, d.isDigit = false := by
    intro d first
    obtain rfl | rfl := ends d first <;> rfl
  have length : numberRun (cs ++ rest) = cs.length := by
    rw [numberRun, run_append digits stops, List.drop_left]
    cases rest with
    | nil => rfl
    | cons d rest => obtain rfl | rfl := ends d rfl <;> rfl
  rw [read, if_neg blank, if_neg comment, if_neg name, if_pos digit, length]

end Lexeme

namespace Context

variable {context : Context} {c : Char} {cs rest : List Char} {kind : Kind}

/-- A lexeme that makes a token is taken from the front of a text. -/
theorem tokens_of_lexeme (known : context.lexeme c (cs ++ rest) = ⟨some kind, cs.length⟩) :
    context.tokens (c :: (cs ++ rest)) =
      context.token kind (c :: cs) :: (context.push kind (c :: cs)).tokens rest := by
  rw [tokens, known]
  simp only [List.take_left, List.drop_left]

/-- Two texts that make no token are skipped one after the other. -/
theorem skip_append (context : Context) (front back : List Char) :
    context.skip (front ++ back) = (context.skip front).skip back := by
  simp only [skip, advance_append]

/-- A blank in front of a text is passed over. -/
theorem tokens_blank : context.tokens (' ' :: rest) = (context.skip [' ']).tokens rest := by
  have blank {context : Context} {c : Char} (cs : List Char) (blank : Lexeme.isBlank c = true) :
      context.lexeme c cs = ⟨none, Lexeme.run Lexeme.isBlank cs⟩ := by
    simp only [lexeme, Lexeme.read, if_pos blank]
  rw [tokens, blank rest rfl]
  dsimp only
  cases rest with
  | nil => simp only [List.take_nil, List.drop_nil]
  | cons c cs =>
    rw [Lexeme.run_cons]
    split
    case isTrue also =>
      -- The blanks are one lexeme, and the later ones are one as well.
      rw [tokens, blank cs also]
      simp only [List.take_succ_cons, List.drop_succ_cons, ← skip_append, List.singleton_append]
    case isFalse => rfl

/-- A lexeme that is no apostrophe and no newline means in a context what it means alone. -/
theorem lexeme_of_read (read : Lexeme.read c cs = ⟨some kind, rest.length⟩) (quote : kind ≠ .quote)
    (newline : kind ≠ .newline) : context.lexeme c cs = ⟨some kind, rest.length⟩ := by
  simp [lexeme, read, quote, newline]

/-- A name that is spelled in front of a text is its first token. -/
theorem tokens_name (starts : Lexeme.startsName c = true)
    (goes : ∀ d ∈ cs, Lexeme.continuesName d = true) (plain : Lexeme.wordKind (c :: cs) = .ident)
    (ends : ∀ d ∈ rest.head?, Lexeme.continuesName d = false) :
    context.tokens (c :: (cs ++ rest)) =
      context.token .ident (c :: cs) :: (context.push .ident (c :: cs)).tokens rest := by
  have read := Lexeme.read_word starts goes ends
  rw [plain] at read
  exact tokens_of_lexeme (lexeme_of_read read Kind.noConfusion Kind.noConfusion)

/-- An integer that is spelled in front of a text is its first token. -/
theorem tokens_integer (digit : c.isDigit = true) (digits : ∀ d ∈ cs, d.isDigit = true)
    (ends : ∀ d ∈ rest.head?, d = ' ' ∨ d = '\n') :
    context.tokens (c :: (cs ++ rest)) =
      context.token .number (c :: cs) :: (context.push .number (c :: cs)).tokens rest :=
  tokens_of_lexeme (lexeme_of_read (Lexeme.read_integer digit digits ends) Kind.noConfusion
    Kind.noConfusion)

/-- The literal of a value in front of a text is its first token. In apostrophes it is so only where
an apostrophe does not transpose. -/
theorem tokens_enclose {quote : Char} {value : List Char} (delimits : quote ∈ ['\'', '"'])
    (line : '\n' ∉ value) (closes : rest.head? ≠ some quote)
    (opens : quote = '\'' → context.transposes = false) :
    context.tokens (Literal.enclose quote value ++ rest) =
      context.token .string (Literal.enclose quote value) ::
        (context.push .string (Literal.enclose quote value)).tokens rest := by
  have whole : Literal.enclose quote value ++ rest =
      quote :: ((Literal.double quote value ++ [quote]) ++ rest) := rfl
  have length : (Literal.double quote value ++ [quote]).length =
      (Literal.double quote value).length + 1 := List.length_append
  rw [whole]
  apply tokens_of_lexeme
  rw [length, List.append_assoc, List.singleton_append]
  simp only [List.mem_cons, List.not_mem_nil, or_false] at delimits
  obtain rfl | rfl := delimits
  · have reach := Literal.closingRun_double (by decide) line closes
    simp [lexeme, Lexeme.read_apostrophe, opens rfl, reach]
  · have reach := Literal.closingRun_double (by decide) line closes
    simp [lexeme, Lexeme.read_doubleQuote, reach]

end Context

end MatlabFront
