import MatlabFront.Proofs.Token.Lossless

/-!
# Literals are read back

A literal closes where the value that it encloses ends, if no delimiter stands behind it. In turn
every literal that closes encloses a value. So the token of a string is what its value is written
as, whichever of the two delimiters it has: the double quote, which is found with the lexeme, or the
apostrophe, which is settled with the tokens before it.
-/

namespace MatlabFront

namespace Literal

variable {quote : Char} {value rest : List Char}

/-- The literal of a value closes behind it when no further delimiter follows. -/
theorem closingRun_double (plain : quote ≠ '\n') (line : '\n' ∉ value)
    (closes : rest.head? ≠ some quote) :
    closingRun quote (double quote value ++ quote :: rest) =
      ⟨true, (double quote value).length + 1⟩ := by
  induction value with
  | nil =>
    rw [double, List.nil_append, closingRun.eq_def]
    cases rest with
    | nil => simp [plain]
    | cons d rest =>
      have other : d ≠ quote := fun same => closes (congrArg some same)
      simp [plain, other]
  | cons c value ih =>
    obtain ⟨first, later⟩ : '\n' ≠ c ∧ '\n' ∉ value := by simpa using line
    by_cases same : c = quote
    · subst same
      rw [double, if_pos rfl, List.cons_append, List.cons_append, closingRun]
      simp [plain, ih later, Reach.after]
    · rw [double, if_neg same, List.cons_append, closingRun.eq_def]
      simp [Ne.symm first, same, ih later, Reach.after]

/-- A literal that closes encloses a value without newlines. -/
theorem exists_double_of_closed {cs : List Char} (closed : (closingRun quote cs).closed = true) :
    ∃ value, '\n' ∉ value ∧
      cs.take (closingRun quote cs).length = double quote value ++ [quote] := by
  fun_induction closingRun quote cs with
  | case1 => cases closed
  | case2 => cases closed
  | case3 => exact ⟨[], by simp, by simp [double]⟩
  | case4 rest line ih =>
    obtain ⟨value, plain, read⟩ := ih closed
    refine ⟨quote :: value, by simp [plain, Ne.symm line], ?_⟩
    simp [double, Reach.after, read]
  | case5 => exact ⟨[], by simp, by simp [double]⟩
  | case6 c cs line other ih =>
    obtain ⟨value, plain, read⟩ := ih closed
    refine ⟨c :: value, by simp [plain, Ne.symm line], ?_⟩
    simp [double, Reach.after, other, read]

/-- What stands in a value with its delimiters doubled stands in the value. -/
theorem mem_of_mem_double {c : Char} (inside : c ∈ double quote value) : c ∈ value := by
  induction value with
  | nil => exact inside
  | cons d value ih =>
    rw [double] at inside
    split at inside
    · simp only [List.mem_cons] at inside ⊢
      grind
    · exact (List.mem_cons.mp inside).elim (fun same => same ▸ List.mem_cons_self)
        fun later => List.mem_cons_of_mem _ (ih later)

/-- The literal of a value without newlines has none. -/
theorem line_enclose (plain : quote ≠ '\n') (line : '\n' ∉ value) :
    '\n' ∉ enclose quote value := by
  simp only [enclose, List.mem_cons, List.mem_append, List.not_mem_nil, or_false, not_or]
  exact ⟨plain.symm, fun inside => line (mem_of_mem_double inside), plain.symm⟩

/-- The value of a literal is what it encloses. -/
@[simp] theorem valueOf_enclose (quote : Char) (value : List Char) :
    valueOf (enclose quote value) = value := by
  rw [enclose, valueOf, dropClosing, List.getLast?_concat, if_pos rfl, List.dropLast_concat,
    collapse_double]

/-- The value of a literal given as a string is what it encloses. -/
theorem unquote_enclose (quote : Char) (value : List Char) :
    unquote (String.ofList (enclose quote value)) = String.ofList value := by
  rw [unquote, String.toList_ofList, valueOf_enclose]

end Literal

namespace Lexeme

variable {c : Char} {cs : List Char} {kind : Kind}

/-- A double quote begins a literal, or an error where the literal does not close. -/
theorem read_doubleQuote (cs : List Char) :
    read '"' cs = ⟨some (if (Literal.closingRun '"' cs).closed then .string else .error),
      (Literal.closingRun '"' cs).length⟩ := rfl

/-- An apostrophe is left open. -/
theorem read_apostrophe (cs : List Char) : read '\'' cs = ⟨some .quote, 0⟩ := rfl

/-- A word is neither an apostrophe nor a string. -/
theorem wordKind_plain (word : List Char) : wordKind word ∉ [.quote, .string] :=
  @wordKind_all (· ∉ [.quote, .string]) (by decide) (by decide) word

/-- A dot makes neither an apostrophe nor a string. -/
theorem readDot_plain (known : (readDot cs).kind = some kind) : kind ∉ [.quote, .string] := by
  have dotted (c : Char) (same : dottedOperator? c = some kind) : kind ∉ [.quote, .string] := by
    unfold dottedOperator? at same
    grind
  unfold readDot at known
  split at known
  · exact Option.some.inj known ▸ by decide
  split at known
  · exact Option.some.inj known ▸ by decide
  split at known
  case h_1 same => exact dotted _ (same.trans known)
  case h_2 =>
    split at known
    · split at known
      · cases known
      · exact Option.some.inj known ▸ by decide
    · exact Option.some.inj known ▸ by decide

/-- What is read as an apostrophe or as a string begins with a double quote or is a single
character. -/
theorem singleKind_of_read (other : c ≠ '"') (quoted : kind ∈ [.quote, .string]) :
    (read c cs).kind = some kind → singleKind? c = some kind := by
  have plain {found : Kind} (differs : found ∉ [.quote, .string]) : some found ≠ some kind :=
    fun same => differs (Option.some.inj same ▸ quoted)
  have pair {second : Char} {both single : Kind} (first : both ∉ [.quote, .string])
      (last : single ∉ [.quote, .string]) : (readPair cs second both single).kind ≠ some kind := by
    obtain known | known := readPair_kind second both single
    · rw [known]
      exact plain first
    · rw [known]
      exact plain last
  have choose {P : Prop} [Decidable P] {one two : Lexeme} {result : Prop}
      (first : one.kind ≠ some kind) (second : two.kind = some kind → result) :
      (if P then one else two).kind = some kind → result := by
    split
    · exact fun known => absurd known first
    · exact second
  have silent : (none : Option Kind) ≠ some kind := by simp
  rw [read, if_neg other]
  refine choose silent <| choose silent <| choose (plain (wordKind_plain _)) <|
    choose (plain (by decide)) <| choose (fun known => readDot_plain known quoted) <|
    choose (pair (by decide) (by decide)) <| choose (pair (by decide) (by decide)) <|
    choose (pair (by decide) (by decide)) <| choose (pair (by decide) (by decide)) <|
    choose (pair (by decide) (by decide)) <| choose (pair (by decide) (by decide)) ?_
  cases singleKind? c with
  | some single => exact id
  | none => exact fun known => absurd known (plain (by decide))

/-- No single character is a string. -/
theorem singleKind_ne_string : singleKind? c ≠ some .string := by
  unfold singleKind?
  simp only [ne_eq, ite_eq_iff, Option.some.injEq, reduceCtorEq, and_false, or_false,
    not_false_eq_true]

/-- Only the apostrophe is a mark alone. -/
theorem eq_apostrophe_of_singleKind (known : singleKind? c = some .quote) : c = '\'' := by
  unfold singleKind? at known
  simp only [ite_eq_iff, Option.some.injEq, reduceCtorEq, and_false, false_or, and_true,
    or_false] at known
  grind

/-- Only a double quote begins a string that is found with its lexeme, and its literal closes. -/
theorem read_string (string : (read c cs).kind = some .string) :
    c = '"' ∧ (Literal.closingRun '"' cs).closed = true ∧
      (read c cs).extra = (Literal.closingRun '"' cs).length := by
  by_cases literal : c = '"'
  · subst literal
    rw [read_doubleQuote] at string ⊢
    cases closed : (Literal.closingRun '"' cs).closed with
    | true => exact ⟨rfl, rfl, rfl⟩
    | false => simp [closed] at string
  · exact absurd (singleKind_of_read literal (by decide) string) singleKind_ne_string

/-- Only an apostrophe is read as one. -/
theorem read_quote (quote : (read c cs).kind = some .quote) : c = '\'' := by
  by_cases literal : c = '"'
  · subst literal
    rw [read_doubleQuote] at quote
    split at quote
    · cases quote
    · cases quote
  · exact eq_apostrophe_of_singleKind (singleKind_of_read literal (by decide) quote)

end Lexeme

namespace Context

variable {context : Context} {c : Char} {cs : List Char}

/-- A string of a text is the literal of a value, in apostrophes or in double quotes. -/
theorem exists_enclose_of_lexeme (string : (context.lexeme c cs).kind = some .string) :
    c ∈ ['\'', '"'] ∧ ∃ value, '\n' ∉ value ∧
      c :: cs.take (context.lexeme c cs).extra = Literal.enclose c value := by
  -- The literal reaches as far as it was followed.
  have closes {quote : Char} (closed : (Literal.closingRun quote cs).closed = true) :
      ∃ value, '\n' ∉ value ∧ quote :: cs.take (Literal.closingRun quote cs).length =
        Literal.enclose quote value := by
    obtain ⟨value, line, read⟩ := Literal.exists_double_of_closed closed
    exact ⟨value, line, congrArg (quote :: ·) read⟩
  cases plain : (Lexeme.read c cs).kind with
  | none =>
    simp only [lexeme, plain] at string
    cases string
  | some kind =>
    by_cases quote : kind = .quote
    · subst quote
      obtain rfl := Lexeme.read_quote plain
      simp only [lexeme, plain] at string ⊢
      split at string
      case isTrue => cases string
      case isFalse opens =>
        rw [if_neg opens]
        cases closed : (Literal.closingRun '\'' cs).closed with
        | true => exact ⟨by decide, closes closed⟩
        | false => simp [closed] at string
    · by_cases newline : kind = .newline
      · subst newline
        simp only [lexeme, plain] at string
        split at string
        case isTrue => cases string
        case isFalse => cases plain.symm.trans string
      · have same : context.lexeme c cs = Lexeme.read c cs := by
          simp [lexeme, plain, quote, newline]
        rw [same] at string ⊢
        obtain ⟨rfl, closed, extra⟩ := Lexeme.read_string string
        rw [extra]
        exact ⟨by decide, closes closed⟩

/-- Every string among the tokens of a text is the literal of a value. -/
theorem exists_enclose_of_mem (context : Context) (cs : List Char) {token : Token}
    (inside : token ∈ context.tokens cs) (string : token.kind = .string) :
    ∃ quote ∈ ['\'', '"'], ∃ value, '\n' ∉ value ∧
      token.text = String.ofList (Literal.enclose quote value) := by
  induction context, cs using Context.tokens.induct with
  | case1 context =>
    rw [Context.tokens] at inside
    cases inside
  | case2 context c cs lexeme text silent ih =>
    rw [Context.tokens, silent] at inside
    exact ih inside
  | case3 context c cs lexeme text kind known ih =>
    rw [Context.tokens, known] at inside
    obtain rfl | later := List.mem_cons.mp inside
    · obtain rfl : kind = .string := string
      obtain ⟨quote, value, line, read⟩ := exists_enclose_of_lexeme known
      exact ⟨c, quote, value, line, congrArg String.ofList read⟩
    · exact ih later

end Context

end MatlabFront
