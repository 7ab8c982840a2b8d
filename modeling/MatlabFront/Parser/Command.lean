import MatlabFront.Parser.State
import MatlabFront.Token.Literal

/-!
# Commands

A command is a call written without brackets: a name and words behind it, up to the end of the
statement. A word is a run of tokens without gaps, and a gap stands in front of each word. Whether a
command comes next is found out by looking ahead from word to word, before any of its tokens is read;
if it does, its words are read one after the other. They are passed as strings. The command `load`
with several words reads a file and assigns the variables that the further words name.
-/

namespace MatlabFront

namespace Command

/-- The number of tokens that continue a word behind its last token. -/
def tailLength (last : Token) : List Token → Nat
  | [] => 0
  | token :: tokens =>
    if (token.kind.startsWord || token.kind == .dot) && last.adjacentTo token then
      tailLength token tokens + 1
    else 0

/-- The number of tokens in the word at the front of some tokens, zero if there is none. -/
def wordLength : List Token → Nat
  | [] => 0
  | first :: tokens => if first.kind.startsWord then tailLength first tokens + 1 else 0

/-- A word continues with no more tokens than there are. -/
theorem tailLength_le (last : Token) (tokens : List Token) :
    tailLength last tokens ≤ tokens.length := by
  induction tokens generalizing last with
  | nil => exact Nat.le_refl 0
  | cons token tokens ih =>
    rw [tailLength]
    split
    · exact Nat.succ_le_succ (ih token)
    · exact Nat.zero_le _

/-- A word has no more tokens than there are. -/
theorem wordLength_le (tokens : List Token) : wordLength tokens ≤ tokens.length := by
  cases tokens with
  | nil => exact Nat.le_refl 0
  | cons first tokens =>
    rw [wordLength]
    split
    · exact Nat.succ_le_succ (tailLength_le first tokens)
    · exact Nat.zero_le _

/-- What is seen by looking ahead. -/
structure Ahead where
  /-- Each word: the index of its first token, and the number of its tokens. -/
  words : List (Nat × Nat)
  /-- The index behind the last word. -/
  stop : Nat

/-- Looks ahead from word to word, from an index on and behind the token that stands in front of it.
Nothing is seen if a word has no gap in front of it. -/
def lookAhead (tokens : List Token) (last : Token) (index : Nat) : Option Ahead :=
  let count := wordLength (tokens.drop index)
  if count = 0 then some ⟨[], index⟩
  else
    match tokens[index]?, tokens[index + count - 1]? with
    | some first, some final =>
      if last.adjacentTo first then none
      else
        match lookAhead tokens final (index + count) with
        | none => none
        | some ahead => some { ahead with words := (index, count) :: ahead.words }
    | _, _ => some ⟨[], index⟩
termination_by tokens.length - index
decreasing_by
  have fits := wordLength_le (tokens.drop index)
  rw [List.length_drop] at fits
  omega

/-- A statement ends in front of some tokens. -/
def endsStatement : List Token → Bool
  | [] => true
  | token :: _ => token.kind.isSeparator || token.kind.isBlockKeyword

/-- A command comes next in some tokens: a name, at least one word, each behind a gap, and the end of
the statement. -/
def comesNext (tokens : List Token) : Bool :=
  match tokens with
  | [] => false
  | name :: _ =>
    name.kind == .ident &&
      match lookAhead tokens name 1 with
      | none => false
      | some ahead => !ahead.words.isEmpty && endsStatement (tokens.drop ahead.stop)

/-- The text that a word passes: a lone string literal without its quotes, and all else as written. -/
def wordText (word : List Token) : String :=
  match word with
  | [token] =>
    if token.kind = .string then Literal.unquote token.text
    else token.text
  | _ => String.join (word.map (·.text))

/-- The position of a word, that of its first token. -/
def wordPos (fallback : Position) (word : List Token) : Position :=
  match word with
  | [] => fallback
  | token :: _ => token.pos

/-- The string that a word passes. -/
def argument (fallback : Position) (word : List Token) : Expr :=
  .string (wordText word) (wordPos fallback word)

end Command

/-- The state behind a number of the tokens that are left. -/
def State.behind (state : State) (count : Nat) : State :=
  { state with
    consumed := (state.rest.take count).reverse ++ state.consumed
    rest := state.rest.drop count }

namespace Parser

/-- Whether a command comes next. -/
def atCommand : Parser Bool := fun state => .done (Command.comesNext state.rest) state

/-- The words that come next, each read to its end, and the state behind them. -/
def readWords (state : State) : List (List Token) × State :=
  let count := Command.wordLength state.rest
  if count = 0 then ([], state)
  else
    let later := readWords (state.behind count)
    (state.rest.take count :: later.1, later.2)
termination_by state.rest.length
decreasing_by
  have fits := Command.wordLength_le state.rest
  simp only [State.behind, List.length_drop]
  omega

/-- Reads the words that come next. -/
def commandWords : Parser (List (List Token)) := fun state =>
  .done (readWords state).1 (readWords state).2

/-- The variables that the words of `load` name. Each word has to be a single name. -/
def loadTargets (fallback : Position) : List (List Token) → Parser (List Target)
  | [] => return []
  | word :: words => do
    let target ← do
      match word with
      | [token] =>
        if token.kind = .ident then pure (Target.var (← used token))
        else reject (.wordNotAVariable (Command.wordText word)) token.pos
      | _ => reject (.wordNotAVariable (Command.wordText word)) (Command.wordPos fallback word)
    return target :: (← loadTargets fallback words)

/-- The command that comes next. -/
def command : Parser Stmt := do
  let callee ← expectUsed
  let found ← commandWords
  report (.command callee.name found.length)
  match found with
  | file :: target :: more =>
    if callee.name = "load" then
      let targets ← loadTargets callee.pos (target :: more)
      return .call (.mk (.ident callee) [Command.argument callee.pos file] (some targets) callee.pos)
    else
      return .call (.mk (.ident callee) (found.map (Command.argument callee.pos)) none callee.pos)
  | _ => return .call (.mk (.ident callee) (found.map (Command.argument callee.pos)) none callee.pos)

end Parser

end MatlabFront
