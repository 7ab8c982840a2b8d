import MatlabFront.Proofs.Token.Cut

/-!
# How a lexeme begins

The first character of a lexeme says how it is read: which run of characters belongs to it, or which
second character is looked for. So a lexeme is read again where the text is cut behind it, or goes on
behind its end, once each of these ways of reading is known to.
-/

namespace MatlabFront

variable {rest : List Char}

namespace Lexeme

variable {cs : List Char} {n : Nat}

/-- What the first character says about how a lexeme is read. -/
inductive Opening where
  | blank
  | comment
  | name
  | digit
  | literal
  | dot
  | pair (second : Char) (both alone : Kind)
  | single (kind : Kind)
  | stray

/-- How a lexeme with some first character is read. -/
def Opening.of (c : Char) : Opening :=
  if isBlank c then .blank
  else if c = '%' ∨ c = '#' then .comment
  else if startsName c then .name
  else if c.isDigit then .digit
  else if c = '"' then .literal
  else if c = '.' then .dot
  else if c = '&' then .pair '&' .andAnd .and
  else if c = '|' then .pair '|' .orOr .or
  else if c = '=' then .pair '=' .equal .assign
  else if c = '<' then .pair '=' .lessEqual .less
  else if c = '>' then .pair '=' .greaterEqual .greater
  else if c = '~' ∨ c = '!' then .pair '=' .notEqual .tilde
  else match singleKind? c with
    | some kind => .single kind
    | none => .stray

/-- Reads a lexeme as its first character says. -/
def Opening.read (c : Char) (cs : List Char) : Opening → Lexeme
  | blank => ⟨none, run isBlank cs⟩
  | comment => ⟨none, run (· != '\n') cs⟩
  | name => ⟨some (wordKind (c :: cs.take (run continuesName cs))), run continuesName cs⟩
  | digit => ⟨some .number, numberRun cs⟩
  | literal => ⟨some (if (Literal.closingRun '"' cs).closed then .string else .error),
      (Literal.closingRun '"' cs).length⟩
  | dot => readDot cs
  | pair second both alone => readPair cs second both alone
  | single kind => ⟨some kind, 0⟩
  | stray => ⟨some .error, 0⟩

/-- A lexeme is read as its first character says. -/
theorem read_eq (c : Char) (cs : List Char) : read c cs = (Opening.of c).read c cs := by
  have choose {P : Prop} [Decidable P] {one two : Lexeme} {first second : Opening}
      (head : one = first.read c cs) (tail : two = second.read c cs) :
      (if P then one else two) = (if P then first else second).read c cs := by
    split
    · exact head
    · exact tail
  refine choose rfl <| choose rfl <| choose rfl <| choose rfl <| choose rfl <| choose rfl <|
    choose rfl <| choose rfl <| choose rfl <| choose rfl <| choose rfl <| choose rfl ?_
  cases singleKind? c with
  | some kind => rfl
  | none => rfl

/-- A lexeme is taken from its text. -/
theorem read_le (c : Char) (cs : List Char) : (read c cs).extra ≤ cs.length := by
  have run (test : Char → Bool) : run test cs ≤ cs.length :=
    (List.takeWhile_prefix test).length_le
  rw [read_eq]
  cases Opening.of c with
  | blank => exact run _
  | comment => exact run _
  | name => exact run _
  | digit => exact numberRun_le cs
  | literal => exact Literal.closingRun_le '"' cs
  | dot => exact readDot_le cs
  | pair second both alone => exact readPair_le cs second both alone
  | single | stray => exact Nat.zero_le _

/-- What an opening says about the first character. -/
def Opening.Fits (c : Char) : Opening → Prop
  | name => startsName c = true
  | digit => c.isDigit = true
  | literal => c = '"'
  | dot => c = '.'
  | pair second _ _ => second ∉ [' ', '\n', '.']
  | _ => True

/-- What the opening of a character says about it is true. -/
theorem Opening.of_fits (c : Char) : (Opening.of c).Fits c := by
  have choose {P : Prop} [Decidable P] {first second : Opening} (head : P → first.Fits c)
      (tail : second.Fits c) : (if P then first else second).Fits c := by
    split
    case isTrue holds => exact head holds
    case isFalse => exact tail
  have pair {P : Prop} {second : Char} {both alone : Kind}
      (fits : second ∉ [' ', '\n', '.']) :
      P → (Opening.pair second both alone).Fits c := fun _ => fits
  refine choose (fun _ => trivial) <| choose (fun _ => trivial) <| choose id <| choose id <|
    choose id <| choose id <| choose (pair (by decide)) <| choose (pair (by decide)) <|
    choose (pair (by decide)) <| choose (pair (by decide)) <| choose (pair (by decide)) <|
    choose (pair (by decide)) ?_
  cases singleKind? c <;> trivial

/-- A lexeme that may go on behind the end of a text: it makes no token, or it is a literal that has
not closed. -/
def Open (c : Char) (lexeme : Lexeme) : Prop :=
  lexeme.kind = none ∨ lexeme.kind = some .error ∧ c ∈ ['\'', '"']

/-- A text of digits only, or of one dot or two. A dot behind it is read together with it. -/
def TakesDot (c : Char) (cs : List Char) : Prop :=
  c.isDigit = true ∧ (∀ d ∈ cs, d.isDigit = true) ∨ c = '.' ∧ cs ∈ [[], ['.']]

/-- A lexeme is read again when the text is cut behind it, and when the text goes on behind its end.
-/
theorem read_cut (ends : n = (read c cs).extra ∨ n = cs.length)
    (closed : (read c cs).extra = n → ¬Open c (read c cs)) (halts : Halts rest)
    (apart : rest.head? = some '.' → ¬TakesDot c (cs.take n)) :
    read c (cs.take n ++ rest) = read c cs := by
  have fits := Opening.of_fits c
  have le := read_le c cs
  have inside : n ≤ cs.length := by omega
  have reach : (read c cs).extra ≤ n := by omega
  have silent (none : (read c cs).kind = .none) : (read c cs).extra < n :=
    Nat.lt_of_le_of_ne reach fun same => closed same (.inl none)
  rw [read_eq] at ends closed reach silent ⊢
  rw [read_eq]
  cases opening : Opening.of c with
  | blank =>
    rw [opening] at reach silent
    exact congrArg (Lexeme.mk none) (run_cut reach (.inl ⟨silent rfl, inside⟩))
  | comment =>
    rw [opening] at reach silent
    exact congrArg (Lexeme.mk none) (run_cut reach (.inl ⟨silent rfl, inside⟩))
  | name =>
    rw [opening] at reach
    replace reach : run continuesName cs ≤ n := reach
    have goes : Cuttable (run continuesName) := .run ⟨rfl, rfl, rfl⟩
    have same : run continuesName (cs.take n ++ rest) = run continuesName cs := goes.cut reach halts
    have word : (cs.take n ++ rest).take (run continuesName cs) =
        cs.take (run continuesName cs) := by
      have within : run continuesName cs ≤ (cs.take n).length := by
        rw [List.length_take]
        exact Nat.le_min.mpr ⟨reach, goes.le cs⟩
      rw [List.take_append_of_le_length within, List.take_take, Nat.min_eq_left reach]
    simp only [Opening.read, same, word]
  | digit =>
    rw [opening] at ends fits
    refine congrArg (Lexeme.mk (some .number)) (numberRun_cut ends halts fun dot digits => ?_)
    exact apart dot (.inl ⟨fits, digits⟩)
  | literal =>
    rw [opening] at ends closed reach fits
    obtain rfl : c = '"' := fits
    have closes (same : (Literal.closingRun '"' cs).length = n) :
        (Literal.closingRun '"' cs).closed = true :=
      Decidable.byContradiction fun unclosed =>
        closed same (.inr ⟨congrArg some (if_neg unclosed), by decide⟩)
    have same : Literal.closingRun '"' (cs.take n ++ rest) = Literal.closingRun '"' cs :=
      Literal.closingRun_cut reach inside closes halts (by decide)
    simp only [Opening.read, same]
  | dot =>
    rw [opening] at ends fits closed
    refine readDot_cut ends (fun same none => closed same (.inl none)) halts fun dot dots => ?_
    exact apart dot (.inr ⟨fits, dots⟩)
  | pair second both alone =>
    rw [opening] at reach fits
    exact readPair_cut reach halts fits
  | single kind => rfl
  | stray => rfl

end Lexeme

namespace Context

variable {context other : Context} {c : Char} {cs ds : List Char}

/-- A lexeme is no longer than the text. -/
theorem lexeme_le (context : Context) (c : Char) (cs : List Char) :
    (context.lexeme c cs).extra ≤ cs.length := by
  have plain := Lexeme.read_le c cs
  have quoted := Literal.closingRun_le '\'' cs
  unfold lexeme
  grind

/-- What is no apostrophe means the same inside the same brackets. -/
theorem lexeme_congr (brackets : other.brackets = context.brackets)
    (plain : (Lexeme.read c cs).kind ≠ some .quote) (same : Lexeme.read c ds = Lexeme.read c cs) :
    other.lexeme c ds = context.lexeme c cs := by
  simp only [lexeme, same, brackets]
  split
  case h_1 quote => exact absurd quote plain
  case h_2 => rfl
  case h_3 => rfl

/-- What is no apostrophe is what is read, apart from newlines that make no token. -/
theorem lexeme_cases (plain : (Lexeme.read c cs).kind ≠ some .quote) :
    context.lexeme c cs = Lexeme.read c cs ∨
      (Lexeme.read c cs).kind = some .newline ∧ context.lexeme c cs = ⟨none, 0⟩ := by
  unfold lexeme
  dsimp only
  split
  case h_1 quote => exact absurd quote plain
  case h_2 newline =>
    split
    case isTrue => exact .inr ⟨newline, rfl⟩
    case isFalse => exact .inl rfl
  case h_3 => exact .inl rfl

/-- The lexeme of an apostrophe is the transpose, a string or an error. -/
theorem lexeme_of_quote (quote : (Lexeme.read c cs).kind = some .quote) :
    c = '\'' ∧ (context.lexeme c cs).kind ∈ [some .transpose, some .string, some .error] := by
  obtain rfl := Lexeme.read_quote quote
  refine ⟨rfl, ?_⟩
  simp only [lexeme, quote]
  split
  · simp
  · split <;> simp

/-- A lexeme is read again when the text goes on behind its end. -/
theorem lexeme_append
    (closed : (context.lexeme c cs).extra = cs.length → ¬Lexeme.Open c (context.lexeme c cs))
    (halts : Halts rest) (apart : rest.head? = some '.' → ¬Lexeme.TakesDot c cs) :
    context.lexeme c (cs ++ rest) = context.lexeme c cs := by
  by_cases quote : (Lexeme.read c cs).kind = some .quote
  · obtain rfl := Lexeme.read_quote quote
    have reach := Literal.closingRun_le '\'' cs
    simp only [lexeme, Lexeme.read_apostrophe] at closed ⊢
    split
    case isTrue => rfl
    case isFalse opens =>
      rw [if_neg opens] at closed
      have closes (same : (Literal.closingRun '\'' cs).length = cs.length) :
          (Literal.closingRun '\'' cs).closed = true :=
        Decidable.byContradiction fun unclosed =>
          closed same (.inr ⟨congrArg some (if_neg unclosed), by decide⟩)
      have same := Literal.closingRun_cut reach (Nat.le_refl _) closes halts (by decide)
      rw [List.take_length] at same
      rw [same]
  · refine lexeme_congr rfl quote ?_
    have whole : (Lexeme.read c cs).extra = cs.length → ¬Lexeme.Open c (Lexeme.read c cs) := by
      intro reach opens
      obtain same | ⟨newline, -⟩ := @lexeme_cases context c cs quote
      · rw [same] at closed
        exact closed reach opens
      · obtain none | ⟨error, -⟩ := opens
        · cases newline.symm.trans none
        · cases newline.symm.trans error
    have same := Lexeme.read_cut (.inr rfl) whole halts (by rwa [List.take_length])
    rwa [List.take_length] at same

/-- A lexeme that is read again in front of more text and makes no token is passed over. -/
theorem tokens_append_of_none (same : context.lexeme c (cs ++ rest) = context.lexeme c cs)
    (silent : (context.lexeme c cs).kind = none) :
    context.tokens (c :: (cs ++ rest)) =
      (context.skip (c :: cs.take (context.lexeme c cs).extra)).tokens
        (cs.drop (context.lexeme c cs).extra ++ rest) := by
  have taken := context.lexeme_le c cs
  rw [tokens, same, silent]
  simp only [List.take_append_of_le_length taken, List.drop_append_of_le_length taken]

/-- A lexeme that is read again in front of more text is a token of it when it makes one. -/
theorem tokens_append_of_some {kind : Kind}
    (same : context.lexeme c (cs ++ rest) = context.lexeme c cs)
    (known : (context.lexeme c cs).kind = some kind) :
    context.tokens (c :: (cs ++ rest)) =
      context.token kind (c :: cs.take (context.lexeme c cs).extra) ::
        (context.push kind (c :: cs.take (context.lexeme c cs).extra)).tokens
          (cs.drop (context.lexeme c cs).extra ++ rest) := by
  have taken := context.lexeme_le c cs
  rw [tokens, same, known]
  simp only [List.take_append_of_le_length taken, List.drop_append_of_le_length taken]

end Context

end MatlabFront
