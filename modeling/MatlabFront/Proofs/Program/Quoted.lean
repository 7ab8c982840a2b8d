import MatlabFront.Proofs.Expression.Readable
import MatlabFront.Proofs.Program.Complete
import MatlabFront.Proofs.Token.Spelled

/-!
# Literals in programs

A value that is written as a literal and assigned to a name is what the program assigns. The tokens
of the text are found from its spelling, and the rules of the grammar read an assignment from them.
-/

namespace MatlabFront

variable {dialect : Dialect} {name sign word last : Token}

/-- A literal that is assigned to a name, with a separator behind it, is a program. -/
theorem Program.ofTokens_of_literal (ident : name.kind = .ident) (assign : sign.kind = .assign)
    (string : word.kind = .string) (separates : last.kind = .semicolon) :
    Program.ofTokens dialect [name, sign, word, last] =
      some (.ok ⟨[.assign (.var (Parser.declared name))
        (.string (Literal.unquote word.text) word.pos) sign.pos]⟩) := by
  -- The states in front of the name, of the sign, of the literal and of the separator.
  let s : State := ⟨[], [name, sign, word, last], none, []⟩
  let s₁ : State := s.next.note name.text
  have rest : s₁.rest = [sign, word, last] := State.note_rest _ _
  have signed : s₁.peek = some sign := by rw [State.peek, rest]; rfl
  have behind : s₁.next.rest = [word, last] := by rw [State.next, rest]; rfl
  have worded : s₁.next.peek = some word := by rw [State.peek, behind]; rfl
  have ends : s₁.next.next.rest = [last] := by rw [State.next, behind]; rfl
  have start : (State.start [name, sign, word, last]).skipSeparators = s := by
    simp [State.skipSeparators, State.skip, State.start, ident, Kind.isSeparator, s]
  have left : Grammar.Reads (.expression .outside 0 (.ident (Parser.declared name))) s s₁ := by
    have operatorless : Operatorless s₁.rest := by
      rw [rest]
      exact operatorless_cons (by rw [assign]; rfl)
    exact .expression (.ident rfl ident) (.stop (operatorless.weaker 0).stops)
  have value : Grammar.Reads
      (.expression .outside 0 (.string (Literal.unquote word.text) word.pos)) s₁.next
      s₁.next.next := by
    have operatorless : Operatorless s₁.next.next.rest := by
      rw [ends]
      exact operatorless_cons (by rw [separates]; rfl)
    exact .expression (.string worded string) (.stop (operatorless.weaker 0).stops)
  have plain : Surface.startsPlain s.peekKind = true := by
    change Surface.startsPlain (some name.kind) = true
    rw [ident]
    rfl
  have noCommand : Command.begins s.rest = false := by
    simp [s, Command.begins, Command.words, assign, Kind.startsWord]
  have statement : Surface.Reads dialect (.statement (.assign (.var (Parser.declared name))
      (.string (Literal.unquote word.text) word.pos) sign.pos)) s s₁.next.next := by
    refine .statement (.assign plain (.inr noCommand) left signed assign value (.one rfl)) ?_
    rw [State.atTerminator, State.peekKind, ends]
    simp [separates, Kind.isSeparator]
  have skipped : s₁.next.next.skipSeparators.rest = [] := by
    simp [State.skipSeparators, State.skip, ends, separates, Kind.isSeparator]
  have reads : Surface.Reads dialect (.items [.statement (.assign (.var (Parser.declared name))
      (.string (Literal.unquote word.text) word.pos) sign.pos)]) (.start [name, sign, word, last])
      s₁.next.next.skipSeparators := by
    have known : (State.start [name, sign, word, last]).skipSeparators.peekKind = some .ident := by
      rw [start]
      exact congrArg some ident
    refine .item known rfl (start ▸ statement) (.noItems ?_)
    rw [State.peek, skipped]
    rfl
  have clean : [name, sign, word, last].find? (·.kind == .error) = none := by
    simp [ident, assign, string, separates]
  exact Surface.program_accepted reads skipped clean

/-- The tokens of a text that assigns the literal of a value to `x`. -/
theorem Token.ofText_literal {quote : Char} {value : List Char} (delimits : quote ∈ ['\'', '"'])
    (line : '\n' ∉ value) :
    ∃ pos, Token.ofText ("x = " ++ String.ofList (Literal.enclose quote value) ++ ";") =
      [⟨.ident, "x", ⟨1, 0⟩⟩, ⟨.assign, "=", ⟨1, 2⟩⟩,
        ⟨.string, String.ofList (Literal.enclose quote value), ⟨1, 4⟩⟩,
        ⟨.semicolon, ";", pos⟩] := by
  -- The contexts behind the name, the sign and the literal, each up to the next token.
  let named := (Context.start.push .ident ['x']).skip [' ']
  let signed := (named.push .assign ['=']).skip [' ']
  let quoted := signed.push .string (Literal.enclose quote value)
  have name (cs : List Char) : Context.start.tokens ('x' :: ' ' :: '=' :: cs) =
      ⟨.ident, "x", ⟨1, 0⟩⟩ :: named.tokens ('=' :: cs) := by
    have known : Context.start.lexeme 'x' ([] ++ ' ' :: '=' :: cs) = ⟨some .ident, 0⟩ := rfl
    have read := Context.tokens_of_lexeme known
    rw [List.nil_append] at read
    rw [read, Context.tokens_blank]
    rfl
  have sign (cs : List Char) :
      named.tokens ('=' :: ' ' :: cs) = ⟨.assign, "=", ⟨1, 2⟩⟩ :: signed.tokens cs := by
    have known : named.lexeme '=' ([] ++ ' ' :: cs) = ⟨some .assign, 0⟩ := rfl
    have read := Context.tokens_of_lexeme known
    rw [List.nil_append] at read
    rw [read, Context.tokens_blank]
    rfl
  have literal : signed.tokens (Literal.enclose quote value ++ [';']) =
      ⟨.string, String.ofList (Literal.enclose quote value), ⟨1, 4⟩⟩ :: quoted.tokens [';'] := by
    have closes : [';'].head? ≠ some quote := by
      rintro ⟨⟩
      exact absurd delimits (by decide)
    exact Context.tokens_enclose delimits line closes fun _ => rfl
  have last : quoted.tokens [';'] = [⟨.semicolon, ";", quoted.pos⟩] := by
    have known : quoted.lexeme ';' ([] ++ []) = ⟨some .semicolon, 0⟩ := rfl
    have read := Context.tokens_of_lexeme known
    rw [List.append_nil] at read
    rw [read, Context.tokens]
    rfl
  have text : ("x = " ++ String.ofList (Literal.enclose quote value) ++ ";").toList =
      'x' :: ' ' :: '=' :: ' ' :: (Literal.enclose quote value ++ [';']) := by
    simp
  exact ⟨quoted.pos, by rw [Token.ofText, text, name, sign, literal, last]⟩

/-- Literals and values are written and read as each other. A value without newlines that is written
between delimiters, with those in it doubled, and assigned to a name is the value that the program
assigns; and the text of a string token is the literal of its value, between delimiters of its first
character. -/
theorem Literal.written_and_read (dialect : Dialect) :
    (∀ quote ∈ ['\'', '"'], ∀ value : String, '\n' ∉ value.toList →
      Program.ofTokens dialect (Token.ofText
          ("x = " ++ String.ofList (Literal.enclose quote value.toList) ++ ";")) =
        some (.ok ⟨[.assign (.var ⟨"x", ⟨1, 0⟩⟩) (.string value ⟨1, 4⟩) ⟨1, 2⟩]⟩)) ∧
    ∀ text, ∀ token ∈ Token.ofText text, token.kind = .string →
      ∃ quote ∈ ['\'', '"'], token.text.toList.head? = some quote ∧
        String.ofList (Literal.enclose quote (Literal.unquote token.text).toList) = token.text := by
  constructor
  · intro quote delimits value line
    obtain ⟨pos, tokens⟩ := Token.ofText_literal delimits line
    rw [tokens, Program.ofTokens_of_literal rfl rfl rfl rfl, Literal.unquote_enclose,
      String.ofList_toList]
    rfl
  · intro text token inside string
    obtain ⟨quote, delimits, value, -, spelled⟩ :=
      Context.start.exists_enclose_of_mem text.toList inside string
    refine ⟨quote, delimits, ?_, ?_⟩
    · rw [spelled, String.toList_ofList]
      rfl
    · rw [spelled, Literal.unquote_enclose, String.toList_ofList]

end MatlabFront
