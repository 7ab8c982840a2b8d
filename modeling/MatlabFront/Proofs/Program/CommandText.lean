import MatlabFront.Proofs.Program.Lookahead
import MatlabFront.Proofs.Program.Progress
import MatlabFront.Proofs.Token.Spelled

/-!
# Commands in a text

A command is typed as a name and some words with single blanks between them. A word is a name, an
integer, or a literal in apostrophes or in double quotes. The lexer takes an apostrophe behind a gap
for the start of a literal only directly behind the first name of a statement; behind any further
word it transposes. So the line is the call of the name with its words, unless a word in apostrophes
stands behind the first word; then the line is refused.
-/

namespace MatlabFront

namespace Command

/-- A name as it is spelled. -/
structure Name where
  first : Char
  more : List Char
  starts : Lexeme.startsName first = true
  goes : ∀ c ∈ more, Lexeme.continuesName c = true
  plain : Lexeme.wordKind (first :: more) = .ident

/-- The characters of a name. -/
def Name.chars (name : Name) : List Char := name.first :: name.more

/-- A word as it is spelled: a name, an integer, or a literal in apostrophes or double quotes. -/
inductive Spelled where
  | name (name : Name)
  | integer (first : Char) (more : List Char) :
    first.isDigit = true → (∀ c ∈ more, c.isDigit = true) → Spelled
  | quoted (value : List Char) : '\n' ∉ value → Spelled
  | doubleQuoted (value : List Char) : '\n' ∉ value → Spelled

namespace Spelled

/-- The characters of a word. -/
def chars : Spelled → List Char
  | .name spelled => spelled.chars
  | .integer first more _ _ => first :: more
  | .quoted value _ => Literal.enclose '\'' value
  | .doubleQuoted value _ => Literal.enclose '"' value

/-- The kind of the token that a word is where it is read as spelled. -/
def kind : Spelled → Kind
  | .name _ => .ident
  | .integer .. => .number
  | .quoted .. | .doubleQuoted .. => .string

/-- What a word passes: the value of a literal, and all else as written. -/
def value : Spelled → String
  | .name spelled => String.ofList spelled.chars
  | .integer first more _ _ => String.ofList (first :: more)
  | .quoted value _ | .doubleQuoted value _ => String.ofList value

/-- A word stands in apostrophes. -/
def inApostrophes : Spelled → Bool
  | .quoted .. => true
  | _ => false

end Spelled

/-- The kind of a word is one that a word can have. -/
theorem Spelled.kind_mem (word : Spelled) : word.kind ∈ [.ident, .number, .string] := by
  cases word <;> simp [Spelled.kind]

/-- A word stands in one line. -/
theorem Spelled.newline_not_mem (word : Spelled) : '\n' ∉ word.chars := by
  cases word with
  | name spelled =>
    intro inside
    obtain same | later := List.mem_cons.mp inside
    · exact absurd (same ▸ spelled.starts) (by decide)
    · exact absurd (spelled.goes _ later) (by decide)
  | integer first more digit digits =>
    intro inside
    obtain same | later := List.mem_cons.mp inside
    · exact absurd (same ▸ digit) (by decide)
    · exact absurd (digits _ later) (by decide)
  | quoted value line => exact Literal.line_enclose (by decide) line
  | doubleQuoted value line => exact Literal.line_enclose (by decide) line

/-- The words of a command, each behind a blank. -/
def spaced (words : List Spelled) : List Char := words.flatMap fun word => ' ' :: word.chars

/-- The line that a command is typed as. -/
def line (name : Name) (words : List Spelled) : String :=
  String.ofList (name.chars ++ spaced words)

/-- The tokens of words that stand behind an offset of the first line. -/
def wordTokens (offset : Nat) : List Spelled → List Token
  | [] => []
  | word :: words => ⟨word.kind, String.ofList word.chars, ⟨1, offset + 1⟩⟩ ::
      wordTokens (offset + 1 + byteSize word.chars) words

/-- The strings that words pass which stand behind an offset of the first line. -/
def wordValues (offset : Nat) : List Spelled → List Expr
  | [] => []
  | word :: words => .string word.value ⟨1, offset + 1⟩ ::
      wordValues (offset + 1 + byteSize word.chars) words

/-- The call that a line comes to. -/
def lineCall (name : Name) (words : List Spelled) : Call :=
  .mk (.ident ⟨String.ofList name.chars, ⟨1, 0⟩⟩) (wordValues (byteSize name.chars) words) none
    ⟨1, 0⟩

end Command

/-- Nothing stands behind a word that goes on with it: a blank or a newline, or the text ends. -/
def Parted (rest : List Char) : Prop := ∀ c ∈ rest.head?, c = ' ' ∨ c = '\n'

namespace Command

variable {words : List Spelled} {rest : List Char}

/-- The text of some words begins with a blank and the first of them. -/
theorem spaced_cons (word : Spelled) (words : List Spelled) (rest : List Char) :
    spaced (word :: words) ++ rest = ' ' :: (word.chars ++ (spaced words ++ rest)) := by
  simp [spaced]

/-- A word stands behind a blank. -/
theorem parted_spaced (filled : words ≠ []) (rest : List Char) : Parted (spaced words ++ rest) := by
  obtain ⟨word, more, rfl⟩ := List.exists_cons_of_ne_nil filled
  rintro _ ⟨⟩
  exact .inl rfl

/-- Words are parted from what stands in front of them if what follows them is. -/
theorem parted_append (parted : Parted rest) (words : List Spelled) :
    Parted (spaced words ++ rest) := by
  cases words with
  | nil => exact parted
  | cons => exact parted_spaced (List.cons_ne_nil _ _) rest

end Command

/-- The kinds of words complete a value, and neither separate statements nor stand for a bracket. -/
theorem Kind.of_word {kind : Kind} (word : kind ∈ [.ident, .number, .string]) :
    kind.endsValue = true ∧ kind.startsWord = true ∧ kind.isSeparator = false ∧
      kind.opensBracket = false ∧ kind.closesBracket = false := by
  revert word
  cases kind <;> decide

namespace Context

open Command

/-- The context behind the last character of a name or a word of the first line, at an offset. The
name is the first of its statement, a word is not. -/
structure BehindWord (context : Context) (first : Bool) (offset : Nat) : Prop where
  pos : context.pos = ⟨1, offset⟩
  brackets : context.brackets = []
  starts : context.lastStarts = first
  last : ∃ last, context.last = some last ∧ last.stop = offset ∧
    last.kind ∈ [.ident, .number, .string] ∧ (first = true → last.kind = .ident)

namespace BehindWord

variable {context : Context} {first : Bool} {offset : Nat} {words : List Spelled} {rest : List Char}

/-- Behind a gap an apostrophe transposes unless it stands behind the name. -/
theorem transposes (behind : context.BehindWord first offset) :
    (context.skip [' ']).transposes = !first := by
  obtain ⟨last, known, stop, kind, ident⟩ := behind.last
  have pos : (context.skip [' ']).pos.offset = offset + 1 := by
    rw [skip, behind.pos]
    rfl
  have gap : (last.stop == (context.skip [' ']).pos.offset) = false := by
    rw [stop, pos]
    simp
  obtain ⟨ends, -⟩ := Kind.of_word kind
  have brackets : (context.skip [' ']).brackets = [] := behind.brackets
  have starts : (context.skip [' ']).lastStarts = first := behind.starts
  have same : (context.skip [' ']).last = some last := known
  simp only [Context.transposes, same, ends, gap, brackets, starts, Bool.true_and, Bool.false_or]
  cases first with
  | false => simp
  | true => simp [ident rfl]

/-- Behind a word that was read, the context is behind a word. -/
theorem push {kind : Kind} {text : List Char} (behind : context.BehindWord first offset)
    (line : '\n' ∉ text) (plain : kind ∈ [.ident, .number, .string]) :
    ((context.skip [' ']).push kind text).BehindWord false (offset + 1 + byteSize text) := by
  obtain ⟨last, known, -, sort, -⟩ := behind.last
  have pos : (context.skip [' ']).pos = ⟨1, offset + 1⟩ := by
    rw [skip, behind.pos]
    rfl
  have brackets : (context.skip [' ']).brackets = [] := behind.brackets
  have same : (context.skip [' ']).last = some last := known
  refine ⟨?_, ?_, ?_, _, rfl, ?_, plain, Bool.noConfusion⟩
  · rw [Context.push, pos, advance, List.count_eq_zero_of_not_mem line]
    rfl
  · obtain ⟨-, -, -, opens, closes⟩ := Kind.of_word plain
    simp [Context.push, brackets, bracketsAfter, opens, closes]
  · obtain ⟨-, -, separator, -⟩ := Kind.of_word sort
    simp [Context.push, atStatementStart, same, separator]
  · rw [Context.token, pos]
    rfl

/-- A word in its line is one token. In apostrophes it is so only directly behind the name. -/
theorem tokens_word (behind : context.BehindWord first offset) (word : Spelled)
    (opens : word.inApostrophes = true → first = true) (parted : Parted rest) :
    ∃ next : Context, next.BehindWord false (offset + 1 + byteSize word.chars) ∧
      context.tokens (' ' :: (word.chars ++ rest)) =
        ⟨word.kind, String.ofList word.chars, ⟨1, offset + 1⟩⟩ :: next.tokens rest := by
  refine ⟨_, behind.push word.newline_not_mem word.kind_mem, ?_⟩
  have token : (context.skip [' ']).token word.kind word.chars =
      ⟨word.kind, String.ofList word.chars, ⟨1, offset + 1⟩⟩ := by
    rw [Context.token, skip, behind.pos]
    rfl
  have ends : ∀ c ∈ rest.head?, Lexeme.continuesName c = false := by
    intro c next
    obtain rfl | rfl := parted c next <;> rfl
  have closes {quote : Char} (other : quote ≠ ' ' ∧ quote ≠ '\n') : rest.head? ≠ some quote := by
    intro next
    obtain same | same := parted quote next
    · exact other.1 same
    · exact other.2 same
  rw [tokens_blank, ← token]
  cases word with
  | name spelled => exact tokens_name spelled.starts spelled.goes spelled.plain ends
  | integer _ _ digit digits => exact tokens_integer digit digits parted
  | quoted value line =>
    refine tokens_enclose (by decide) line (closes (by decide)) fun _ => ?_
    rw [behind.transposes, opens rfl]
    rfl
  | doubleQuoted value line =>
    exact tokens_enclose (by decide) line (closes (by decide)) fun same => by cases same

/-- Behind a word an apostrophe transposes. -/
theorem tokens_apostrophe (behind : context.BehindWord false offset) (rest : List Char) :
    ∃ later, context.tokens (' ' :: '\'' :: rest) =
      ⟨.transpose, "'", ⟨1, offset + 1⟩⟩ :: later := by
  have lexeme : (context.skip [' ']).lexeme '\'' ([] ++ rest) = ⟨some .transpose, 0⟩ := by
    simp [Context.lexeme, Lexeme.read_apostrophe, behind.transposes]
  have token : (context.skip [' ']).token .transpose ['\''] =
      ⟨.transpose, "'", ⟨1, offset + 1⟩⟩ := by
    rw [Context.token, skip, behind.pos]
    rfl
  have taken := tokens_of_lexeme lexeme
  rw [token, List.nil_append] at taken
  exact ⟨_, tokens_blank.trans taken⟩

/-- Where the line or the text ends, no word goes on. -/
theorem endsWords (behind : context.BehindWord false offset)
    (ended : ∀ c ∈ rest.head?, c = '\n') : EndsWords (context.tokens rest) := by
  cases rest with
  | nil =>
    rw [Context.tokens]
    rintro _ ⟨⟩
  | cons c more =>
    obtain rfl := ended c rfl
    have lexeme : context.lexeme '\n' ([] ++ more) = ⟨some .newline, 0⟩ := by
      have read (cs : List Char) : Lexeme.read '\n' cs = ⟨some .newline, 0⟩ := rfl
      simp [Context.lexeme, read, behind.brackets]
    have taken := tokens_of_lexeme lexeme
    rw [List.nil_append] at taken
    rw [taken]
    rintro _ ⟨⟩
    rfl

/-- Words that stand behind a word are one token each when none of them stands in apostrophes. -/
theorem tokens_words (behind : context.BehindWord false offset)
    (plain : ∀ word ∈ words, word.inApostrophes = false) (parted : Parted rest) :
    ∃ (next : Context) (stop : Nat), next.BehindWord false stop ∧
      context.tokens (spaced words ++ rest) = wordTokens offset words ++ next.tokens rest := by
  induction words generalizing context offset with
  | nil => exact ⟨context, offset, behind, rfl⟩
  | cons word words ih =>
    obtain ⟨first, later⟩ := List.forall_mem_cons.mp plain
    obtain ⟨middle, between, read⟩ := behind.tokens_word word
      (fun opens => by cases first.symm.trans opens) (parted_append parted words)
    obtain ⟨next, stop, ends, reads⟩ := ih between later
    refine ⟨next, stop, ends, ?_⟩
    rw [spaced_cons, read, reads]
    rfl

/-- Behind a word, words up to the first one in apostrophes are one token each, and then a transpose
comes. -/
theorem tokens_words_apostrophe (behind : context.BehindWord false offset)
    (inside : ∃ word ∈ words, word.inApostrophes = true) (rest : List Char) :
    ∃ front pos later, context.tokens (spaced words ++ rest) =
      wordTokens offset front ++ ⟨.transpose, "'", pos⟩ :: later := by
  induction words generalizing context offset with
  | nil => simp at inside
  | cons word words ih =>
    rw [spaced_cons]
    by_cases opens : word.inApostrophes = true
    · obtain ⟨value, line, rfl⟩ : ∃ value line, word = .quoted value line := by
        cases word with
        | quoted value line => exact ⟨value, line, rfl⟩
        | name | integer | doubleQuoted => cases opens
      obtain ⟨later, read⟩ := behind.tokens_apostrophe
        (Literal.double '\'' value ++ ['\''] ++ (spaced words ++ rest))
      exact ⟨[], _, later, read⟩
    · have later : ∃ word ∈ words, word.inApostrophes = true := by
        obtain ⟨found, among, marked⟩ := inside
        obtain rfl | among := List.mem_cons.mp among
        · exact absurd marked opens
        · exact ⟨found, among, marked⟩
      have filled : words ≠ [] := by
        rintro rfl
        simp at later
      obtain ⟨middle, between, read⟩ := behind.tokens_word word
        (fun marked => absurd marked opens) (parted_spaced filled rest)
      obtain ⟨front, pos, later, reads⟩ := ih between later
      refine ⟨word :: front, pos, later, ?_⟩
      rw [read, reads]
      rfl

end BehindWord

variable {name : Name} {words : List Spelled} {rest : List Char}

/-- A line begins with its name, behind which its words stand. -/
theorem tokens_line (name : Name) (parted : Parted rest) :
    ∃ next : Context, next.BehindWord true (byteSize name.chars) ∧
      start.tokens (name.chars ++ rest) =
        ⟨.ident, String.ofList name.chars, ⟨1, 0⟩⟩ :: next.tokens rest := by
  have line : '\n' ∉ name.chars := (Spelled.name name).newline_not_mem
  have ends : ∀ c ∈ rest.head?, Lexeme.continuesName c = false := by
    intro c next
    obtain rfl | rfl := parted c next <;> rfl
  refine ⟨start.push .ident name.chars, ?_, tokens_name name.starts name.goes name.plain ends⟩
  refine ⟨?_, rfl, rfl, _, rfl, ?_, List.mem_cons_self, fun _ => rfl⟩
  · rw [push, advance, List.count_eq_zero_of_not_mem line]
    simp [start, byteSize]
  · simp [Token.stop, token, start, byteSize]

/-- In a line without a word in apostrophes behind its first word the name and each word are one
token. -/
theorem tokens_line_plain (name : Name) (word : Spelled) (parted : Parted rest)
    (plain : ∀ word ∈ words, word.inApostrophes = false) :
    ∃ (next : Context) (stop : Nat), next.BehindWord false stop ∧
      start.tokens (name.chars ++ (spaced (word :: words) ++ rest)) =
        ⟨.ident, String.ofList name.chars, ⟨1, 0⟩⟩ ::
          (wordTokens (byteSize name.chars) (word :: words) ++ next.tokens rest) := by
  obtain ⟨named, behind, read⟩ := tokens_line name (parted_append parted (word :: words))
  obtain ⟨middle, between, first⟩ :=
    behind.tokens_word word (fun _ => rfl) (parted_append parted words)
  obtain ⟨next, stop, ends, reads⟩ := between.tokens_words plain parted
  exact ⟨next, stop, ends, by rw [read, spaced_cons, first, reads]; rfl⟩

/-- In a line with a word in apostrophes behind its first word a transpose follows on the name and
some words. -/
theorem tokens_line_apostrophe (name : Name) (word : Spelled)
    (inside : ∃ word ∈ words, word.inApostrophes = true) (rest : List Char) :
    ∃ front pos later, start.tokens (name.chars ++ (spaced (word :: words) ++ rest)) =
      ⟨.ident, String.ofList name.chars, ⟨1, 0⟩⟩ ::
        (wordTokens (byteSize name.chars) (word :: front) ++ ⟨.transpose, "'", pos⟩ :: later) := by
  have filled : words ≠ [] := by
    rintro rfl
    simp at inside
  obtain ⟨named, behind, read⟩ :=
    tokens_line name (parted_spaced (List.cons_ne_nil word words) rest)
  obtain ⟨middle, between, first⟩ :=
    behind.tokens_word word (fun _ => rfl) (parted_spaced filled rest)
  obtain ⟨front, pos, later, reads⟩ := between.tokens_words_apostrophe inside rest
  exact ⟨front, pos, later, by rw [read, spaced_cons, first, reads]; rfl⟩

end Context

namespace Command

/-- The tokens of words are cut into words of one token each. -/
theorem words_wordTokens (spelled : List Spelled) (offset : Nat) :
    words (wordTokens offset spelled) =
      ((wordTokens offset spelled).map fun token => [token], []) := by
  induction spelled generalizing offset with
  | nil =>
    rw [wordTokens, words]
    rfl
  | cons word spelled ih =>
    obtain ⟨-, starts, -⟩ := Kind.of_word word.kind_mem
    have alone : wordTail ⟨word.kind, String.ofList word.chars, ⟨1, offset + 1⟩⟩
        (wordTokens (offset + 1 + byteSize word.chars) spelled) =
        ([], wordTokens (offset + 1 + byteSize word.chars) spelled) := by
      cases spelled with
      | nil => rfl
      | cons next spelled =>
        -- A blank stands between two words.
        have gap : (⟨word.kind, String.ofList word.chars, ⟨1, offset + 1⟩⟩ : Token).adjacentTo
            ⟨next.kind, String.ofList next.chars,
              ⟨1, offset + 1 + byteSize word.chars + 1⟩⟩ = false := by
          simp [Token.adjacentTo, Token.stop, byteSize]
        rw [wordTokens, wordTail, gap, Bool.and_false]
        rfl
    rw [wordTokens, words, if_pos starts]
    simp only [alone, ih, List.map_cons]

/-- A blank stands in front of each word of a line. -/
theorem apart_wordTokens {last : Token} {offset : Nat} (stop : last.stop = offset)
    (spelled : List Spelled) :
    apart last ((wordTokens offset spelled).map fun token => [token]) = true := by
  induction spelled generalizing last offset with
  | nil => rfl
  | cons word spelled ih =>
    have gap : last.adjacentTo ⟨word.kind, String.ofList word.chars, ⟨1, offset + 1⟩⟩ = false := by
      simp [Token.adjacentTo, stop]
    rw [wordTokens, List.map_cons, apart_cons rfl List.getLast?_singleton, gap]
    exact ih rfl

/-- The tokens of words pass the values of the words. -/
theorem argument_wordTokens (fallback : Position) (spelled : List Spelled) (offset : Nat) :
    ((wordTokens offset spelled).map fun token => [token]).map (argument fallback) =
      wordValues offset spelled := by
  induction spelled generalizing offset with
  | nil => rfl
  | cons word spelled ih =>
    have passes : wordText [⟨word.kind, String.ofList word.chars, ⟨1, offset + 1⟩⟩] =
        word.value := by
      cases word with
      | name | integer => rfl
      | quoted value line => exact Literal.unquote_enclose '\'' value
      | doubleQuoted value line => exact Literal.unquote_enclose '"' value
    rw [wordTokens, wordValues, List.map_cons, List.map_cons, ih, argument, passes]
    rfl

/-- A name and the tokens of words in front of the end of a statement begin a command, and nothing
else in front of them does. -/
theorem begins_wordTokens {token : Token} {rest : List Token} (kind : token.kind = .ident)
    (ends : EndsWords rest) (spelled : List Spelled) :
    begins (token :: (wordTokens token.stop spelled ++ rest)) =
      (!spelled.isEmpty && endsStatement rest) := by
  rw [begins, words_before ends, words_wordTokens]
  have filled : ((wordTokens token.stop spelled).map fun token => [token]).isEmpty =
      spelled.isEmpty := by cases spelled <;> rfl
  simp [kind, filled, apart_wordTokens]

end Command

namespace Parser

open Command

/-- A name other than `load` and the tokens of some words are read as the call of the name. -/
theorem command_wordTokens {s : State} {token : Token} {rest : List Token} {spelled : List Spelled}
    (known : s.rest = token :: (wordTokens token.stop spelled ++ rest)) (kind : token.kind = .ident)
    (ends : EndsWords rest) (other : token.text ≠ "load") :
    ∃ final, final.rest = rest ∧ command s = .done (.call (.mk (.ident (declared token))
      (wordValues token.stop spelled) none token.pos)) final := by
  obtain ⟨first, behind⟩ := State.peek_of_rest known
  obtain ⟨final, -, left, read⟩ := command_eq first kind
  rw [behind, words_before ends, words_wordTokens] at left read
  have call : meaning token ((wordTokens token.stop spelled).map fun token => [token]) =
      .ok (.mk (.ident (declared token)) (wordValues token.stop spelled) none token.pos) := by
    rw [meaning, if_neg fun loads => other loads.1, argument_wordTokens]
  rw [call] at read
  exact ⟨final, left, read⟩

end Parser

namespace Surface

variable {s final : State} {name word : Token} {later : List Token}

/-- A statement in which a word stands behind a name is a command. -/
theorem command_of_word {written : Statement}
    (reads : Reads .matlab (.openStatement written) s final)
    (terminates : final.atTerminator = true) (rest : s.rest = name :: word :: later)
    (named : name.kind = .ident)
    (starts : word.kind.startsWord = true) :
    ∃ call, written = .command call ∧ Command.begins s.rest = true ∧
      Parser.command s = .done (.call call) final := by
  obtain ⟨first, -⟩ := State.peek_of_rest rest
  have keyword {token : Token} {kind : Kind} (known : s.peek = some token)
      (sort : token.kind = kind) : kind = .ident := by
    obtain rfl := Option.some.inj (first.symm.trans known)
    exact sort.symm.trans named
  cases reads with
  | eval _ _ expression _ =>
    have here := expression.rest_of_word rest named starts
    rw [State.atTerminator, here, Option.all_some, (Kind.goes_of_startsWord starts).2] at terminates
    cases terminates
  | assign _ _ left sign kind =>
    have here := left.rest_of_word rest named starts
    rw [State.peekKind_of_peek sign, kind] at here
    exact absurd (Option.some.inj here).symm (Kind.goes_of_startsWord starts).1
  | command _ _ begins run => exact ⟨_, rfl, begins, run⟩
  | switch known =>
    obtain ⟨token, known, kind⟩ := State.peek_of_peekKind known
    cases keyword known kind
  | branch known kind | whileLoop known kind | forLoop known kind | forEnclosed known kind
  | tryOnly known kind | tryCatch known kind | global known kind | breakLoop known kind
  | continueLoop known kind | leave known kind => cases keyword known kind

/-- A program in whose first statement a word stands behind a name begins with a command. -/
theorem items_of_word {items : List Item} {tokens : List Token}
    (reads : Reads .matlab (.items items) (.start tokens) final)
    (rest : tokens = name :: word :: later) (named : name.kind = .ident)
    (starts : word.kind.startsWord = true) :
    ∃ call more s₁, items = .statement (.command call) :: more ∧ Command.begins tokens = true ∧
      Parser.command (.start tokens) = .done (.call call) s₁ := by
  have start : (State.start tokens).skipSeparators = .start tokens := by
    simp [State.skipSeparators, State.skip, State.start, rest, named, Kind.isSeparator]
  have known : (State.start tokens).peek = some name := by rw [rest]; rfl
  cases reads with
  | noItems none =>
    rw [start, known] at none
    cases none
  | item _ _ statement _ =>
    rw [start] at statement
    cases statement with
    | statement open_ terminates =>
      obtain ⟨call, rfl, begins, run⟩ := command_of_word open_ terminates rest named starts
      exact ⟨call, _, _, rfl, begins, run⟩
  | function here kind =>
    rw [start] at here
    obtain rfl := Option.some.inj (known.symm.trans here)
    cases named.symm.trans kind

end Surface

/-- A command that is read to the end of the input is a program. -/
theorem Program.ofTokens_of_command {tokens : List Token} {call : Call} {final : State}
    (begins : Command.begins tokens = true)
    (run : Parser.command (.start tokens) = .done (.call call) final) (ended : final.rest = [])
    (clean : tokens.find? (·.kind == .error) = none) :
    Program.ofTokens .matlab tokens = some (.ok ⟨[.call call]⟩) := by
  obtain ⟨name, word, later, rest, named, -⟩ := Command.rest_of_begins begins
  have start : (State.start tokens).skipSeparators = .start tokens := by
    simp [State.skipSeparators, State.skip, State.start, rest, named, Kind.isSeparator]
  have known : (State.start tokens).peekKind = some .ident := by
    rw [rest]
    exact congrArg some named
  have plain : Surface.startsPlain (State.start tokens).peekKind = true := by
    rw [known]
    rfl
  have terminates : final.atTerminator = true := by simp [State.atTerminator, State.peekKind, ended]
  have skipped : final.skipSeparators.rest = [] := by
    simp [State.skipSeparators, State.skip, ended]
  have statement : Surface.Reads .matlab (.statement (.command call)) (.start tokens) final :=
    .statement (.command plain rfl begins run) terminates
  have reads : Surface.Reads .matlab (.items [.statement (.command call)]) (.start tokens)
      final.skipSeparators := by
    rw [← start] at known statement
    refine .item known rfl statement (.noItems ?_)
    rw [State.peek, skipped]
    rfl
  exact Surface.program_accepted reads skipped clean

namespace Command

/-- The tokens of words are no errors. -/
theorem clean_wordTokens (spelled : List Spelled) (offset : Nat) :
    (wordTokens offset spelled).find? (·.kind == .error) = none := by
  induction spelled generalizing offset with
  | nil => rfl
  | cons word spelled ih =>
    have sound : (word.kind == .error) = false := by cases word <;> rfl
    rw [wordTokens, List.find?_cons, sound]
    exact ih _

/-- The token of a name that is typed at the start of a text. -/
def Name.token (name : Name) : Token := ⟨.ident, String.ofList name.chars, ⟨1, 0⟩⟩

/-- The token of a name that begins a line ends where its characters do. -/
theorem Name.stop_token (name : Name) : name.token.stop = byteSize name.chars := Nat.zero_add _

variable {name : Name} {word : Spelled} {words : List Spelled}

/-- The tokens of a text that begins with a line are those of its characters. -/
theorem ofText_line_append (name : Name) (words : List Spelled) (more : String) :
    Token.ofText (line name words ++ more) =
      Context.start.tokens (name.chars ++ (spaced words ++ more.toList)) := by
  have chars : (line name words ++ more).toList = name.chars ++ (spaced words ++ more.toList) := by
    simp [line]
  rw [Token.ofText, chars]

/-- A text begins with the call of a name if it begins with a line without a word in apostrophes
behind its first word. -/
theorem command_line (other : String.ofList name.chars ≠ "load")
    (plain : ∀ word ∈ words, word.inApostrophes = false) {more : String}
    (ended : ∀ c ∈ more.toList.head?, c = '\n') :
    ∃ behind final, Token.ofText (line name (word :: words) ++ more) =
        name.token :: (wordTokens name.token.stop (word :: words) ++ behind) ∧
      EndsWords behind ∧ (more.toList = [] → behind = []) ∧ final.rest = behind ∧
      Parser.command (.start (Token.ofText (line name (word :: words) ++ more))) =
        .done (.call (lineCall name (word :: words))) final := by
  obtain ⟨next, _, behind, tokens⟩ :=
    Context.tokens_line_plain name word (fun c first => .inr (ended c first)) plain
  have text : Token.ofText (line name (word :: words) ++ more) =
      name.token :: (wordTokens name.token.stop (word :: words) ++ next.tokens more.toList) := by
    rw [ofText_line_append, tokens, name.stop_token]
    rfl
  have ends : EndsWords (next.tokens more.toList) := behind.endsWords ended
  obtain ⟨final, left, run⟩ := @Parser.command_wordTokens
    (.start (Token.ofText (line name (word :: words) ++ more))) name.token _ _ text rfl ends other
  refine ⟨_, final, text, ends, fun none => ?_, left, ?_⟩
  · rw [none, Context.tokens]
  · rw [run, name.stop_token]
    rfl

/-- A line without a word in apostrophes behind its first word is the call of its name. -/
theorem ofText_line_plain (other : String.ofList name.chars ≠ "load")
    (plain : ∀ word ∈ words, word.inApostrophes = false) :
    Program.ofTokens .matlab (Token.ofText (line name (word :: words))) =
      some (.ok ⟨[.call (lineCall name (word :: words))]⟩) := by
  obtain ⟨behind, final, text, ends, none, left, run⟩ :=
    @command_line name word words other plain "" (by simp)
  obtain rfl : behind = [] := none rfl
  have begins := @begins_wordTokens name.token _ rfl ends (word :: words)
  rw [← text] at begins
  rw [String.append_empty] at text begins run
  refine Program.ofTokens_of_command begins run left ?_
  rw [text, List.append_nil, List.find?_cons, clean_wordTokens]
  rfl

/-- Such a line is the same call in front of further lines, if these are accepted. -/
theorem ofText_line_below (other : String.ofList name.chars ≠ "load")
    (plain : ∀ word ∈ words, word.inApostrophes = false) (more : String) {program : Program}
    (accepted : Program.ofTokens .matlab
      (Token.ofText (line name (word :: words) ++ "\n" ++ more)) = some (.ok program)) :
    ∃ later, program.body = .call (lineCall name (word :: words)) :: later := by
  rw [String.append_assoc] at accepted
  have ended : ∀ c ∈ ("\n" ++ more).toList.head?, c = '\n' := by simp
  obtain ⟨behind, final, text, -, -, -, run⟩ := @command_line name word words other plain _ ended
  obtain ⟨-, starts, -⟩ := Kind.of_word word.kind_mem
  obtain ⟨items, last, reads, -, tree⟩ := Surface.program_sound accepted
  obtain ⟨call, later, s₁, rfl, -, read⟩ := Surface.items_of_word reads text rfl starts
  obtain ⟨same, -⟩ := Outcome.done.inj (run.symm.trans read)
  refine ⟨later.flatMap Surface.Item.lower, ?_⟩
  rw [tree, List.flatMap_cons, Stmt.call.inj same]
  rfl

/-- A line with a word in apostrophes behind its first word is refused, whatever follows it. -/
theorem ofText_line_apostrophe (inside : ∃ word ∈ words, word.inApostrophes = true)
    (more : String) : ∃ failure,
      Program.ofTokens .matlab (Token.ofText (line name (word :: words) ++ more)) =
        some (.error failure) := by
  obtain ⟨front, pos, later, tokens⟩ :=
    Context.tokens_line_apostrophe name word inside more.toList
  have text : Token.ofText (line name (word :: words) ++ more) = name.token ::
      (wordTokens name.token.stop (word :: front) ++ ⟨.transpose, "'", pos⟩ :: later) := by
    rw [ofText_line_append, tokens, name.stop_token]
    rfl
  have ends : EndsWords (⟨.transpose, "'", pos⟩ :: later) := by
    rintro _ ⟨⟩
    rfl
  have begins := @begins_wordTokens name.token _ rfl ends (word :: front)
  rw [← text] at begins
  obtain ⟨result, read⟩ :=
    Program.exists_ofTokens .matlab (Token.ofText (line name (word :: words) ++ more))
  cases result with
  | error failure => exact ⟨failure, read⟩
  | ok program =>
    obtain ⟨-, starts, -⟩ := Kind.of_word word.kind_mem
    obtain ⟨items, last, reads, -, -⟩ := Surface.program_sound read
    obtain ⟨-, -, -, -, command, -⟩ := Surface.items_of_word reads text rfl starts
    cases begins.symm.trans command

/-- A command that is typed as a name other than `load` and some words, with single blanks between
them, is the call of the name with one string for each word, as long as no word in apostrophes
stands behind the first word: the line alone is a program of this one call, and a program that
begins with the line begins with the call. With a word in apostrophes behind the first word the line
is refused, whatever follows it. -/
theorem ofText_line (filled : words ≠ []) (other : String.ofList name.chars ≠ "load") :
    ((∀ word ∈ words.tail, word.inApostrophes = false) →
      Program.ofTokens .matlab (Token.ofText (line name words)) =
          some (.ok ⟨[.call (lineCall name words)]⟩) ∧
        ∀ more program,
          Program.ofTokens .matlab (Token.ofText (line name words ++ "\n" ++ more)) =
            some (.ok program) →
          ∃ later, program.body = .call (lineCall name words) :: later) ∧
      ((∃ word ∈ words.tail, word.inApostrophes = true) → ∀ more, ∃ failure,
        Program.ofTokens .matlab (Token.ofText (line name words ++ more)) =
          some (.error failure)) := by
  obtain ⟨word, words, rfl⟩ := List.exists_cons_of_ne_nil filled
  constructor
  · intro plain
    exact ⟨ofText_line_plain other plain, fun more _ => ofText_line_below other plain more⟩
  · intro inside more
    exact ofText_line_apostrophe inside more

/-- In `disp 'it''s' 7` the first word is in apostrophes, and both words are passed. -/
theorem ofText_line_first :
    line ⟨'d', ['i', 's', 'p'], rfl, by simp [Lexeme.continuesName], rfl⟩
        [.quoted ['i', 't', '\'', 's'] (by decide), .integer '7' [] rfl nofun] =
      "disp 'it''s' 7" ∧
    Program.ofTokens .matlab (Token.ofText "disp 'it''s' 7") =
      some (.ok ⟨[.call (.mk (.ident ⟨"disp", ⟨1, 0⟩⟩)
        [.string "it's" ⟨1, 5⟩, .string "7" ⟨1, 13⟩] none ⟨1, 0⟩)]⟩) := by
  have spelled : line ⟨'d', ['i', 's', 'p'], rfl, by simp [Lexeme.continuesName], rfl⟩
      [.quoted ['i', 't', '\'', 's'] (by decide), .integer '7' [] rfl nofun] =
      "disp 'it''s' 7" := by decide
  refine ⟨spelled, ?_⟩
  obtain ⟨alone, -⟩ := (@ofText_line
    ⟨'d', ['i', 's', 'p'], rfl, by simp [Lexeme.continuesName], rfl⟩
    [.quoted ['i', 't', '\'', 's'] (by decide), .integer '7' [] rfl nofun]
    (List.cons_ne_nil _ _) (by decide)).1 (by simp [Spelled.inApostrophes])
  rw [spelled] at alone
  exact alone

/-- The line `disp a 'b'` is typed as a name and two words, but is refused at the first of them. -/
theorem ofText_line_refused :
    line ⟨'d', ['i', 's', 'p'], rfl, by simp [Lexeme.continuesName], rfl⟩
        [.name ⟨'a', [], rfl, nofun, rfl⟩, .quoted ['b'] (by decide)] = "disp a 'b'" ∧
    Program.ofTokens .matlab (Token.ofText "disp a 'b'") =
      some (.error (.syntaxFault .missingTerminator (some ⟨.ident, "a", ⟨1, 5⟩⟩) ⟨1, 5⟩)) :=
  ⟨by decide, by cbv⟩

end Command

end MatlabFront
