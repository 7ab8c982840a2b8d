import MatlabFront.Parser.Command
import MatlabFront.Proofs.Parser.Outcome

/-!
# The words of a command

Words are cut from the front of some tokens one after the other. Looking ahead finds the words that
are cut, at their indices, as long as a gap stands in front of each; and the words that are read are
those that are cut. So a command comes next exactly where a name stands in front of words with gaps
between them and of the end of the statement.
-/

namespace MatlabFront

namespace Command

/-- The tokens that continue a word behind its last token, and the tokens after the word. -/
def wordTail (last : Token) : List Token → List Token × List Token
  | [] => ([], [])
  | token :: tokens =>
    if (token.kind.startsWord || token.kind == .dot) && last.adjacentTo token then
      let (word, rest) := wordTail token tokens
      (token :: word, rest)
    else ([], token :: tokens)

/-- What follows a word is no longer than what its tail was taken from. -/
theorem wordTail_rest_length (last : Token) (tokens : List Token) :
    (wordTail last tokens).2.length ≤ tokens.length := by
  induction tokens generalizing last with
  | nil => simp [wordTail]
  | cons token tokens ih =>
    rw [wordTail]
    split
    · exact Nat.le_succ_of_le (ih token)
    · exact Nat.le_refl _

/-- The words at the front of some tokens, and the tokens after them. -/
def words : List Token → List (List Token) × List Token
  | [] => ([], [])
  | token :: tokens =>
    if token.kind.startsWord then
      let tail := wordTail token tokens
      let (later, rest) := words tail.2
      ((token :: tail.1) :: later, rest)
    else ([], token :: tokens)
termination_by tokens => tokens.length
decreasing_by
  have shorter := wordTail_rest_length token tokens
  simp only [List.length_cons]
  omega

/-- A gap stands in front of each word, the first one behind a token. -/
def apart (last : Token) : List (List Token) → Bool
  | [] => true
  | word :: words =>
    match word.head?, word.getLast? with
    | some first, some final => !last.adjacentTo first && apart final words
    | _, _ => apart last words

/-- The tokens begin with a command: a name, at least one word, each behind a gap, and the end of
the statement. -/
def begins : List Token → Bool
  | [] => false
  | name :: tokens =>
    let (found, rest) := words tokens
    name.kind == .ident && !found.isEmpty && apart name found && endsStatement rest

/-- A word and what follows it are the tokens that it was taken from. -/
theorem wordTail_append (last : Token) (tokens : List Token) :
    (wordTail last tokens).1 ++ (wordTail last tokens).2 = tokens := by
  induction tokens generalizing last with
  | nil => rfl
  | cons token tokens ih =>
    rw [wordTail]
    split
    · exact congrArg (token :: ·) (ih token)
    · rfl

/-- The words and what follows them are the tokens that they were taken from. -/
theorem words_flatten (tokens : List Token) :
    (words tokens).1.flatten ++ (words tokens).2 = tokens := by
  fun_induction words tokens with
  | case1 => rfl
  | case2 token tokens _ tail later rest same ih =>
    rw [same] at ih
    change token :: (tail.1 ++ later.flatten) ++ rest = token :: tokens
    rw [List.cons_append, List.append_assoc, ih, wordTail_append]
  | case3 => rfl

/-- No word begins with the first of some tokens or continues with it. -/
def EndsWords (tokens : List Token) : Prop :=
  ∀ token ∈ tokens.head?, (token.kind.startsWord || token.kind == .dot) = false

section EndsWords

variable {rest : List Token} (ends : EndsWords rest)
include ends

/-- A word ends in front of tokens that end words. -/
theorem wordTail_before (last : Token) (tokens : List Token) :
    wordTail last (tokens ++ rest) =
      ((wordTail last tokens).1, (wordTail last tokens).2 ++ rest) := by
  induction tokens generalizing last with
  | nil =>
    cases rest with
    | nil => rfl
    | cons token rest => simp [wordTail, ends token rfl]
  | cons token tokens ih =>
    rw [List.cons_append, wordTail, wordTail, ih]
    split <;> rfl

/-- The words in front of tokens that end words do not depend on these. -/
theorem words_before (tokens : List Token) :
    words (tokens ++ rest) = ((words tokens).1, (words tokens).2 ++ rest) := by
  fun_induction words tokens with
  | case1 =>
    cases rest with
    | nil => rw [List.append_nil, words]
    | cons token rest =>
      obtain ⟨other, -⟩ := Bool.or_eq_false_iff.mp (ends token rfl)
      rw [List.nil_append, words, if_neg (by simp [other])]
  | case2 token tokens starts tail later behind same ih =>
    rw [List.cons_append, words, if_pos starts, wordTail_before ends]
    simp only [tail, same] at ih ⊢
    rw [ih]
  | case3 token tokens stops =>
    rw [List.cons_append, words, if_neg stops]

end EndsWords

/-- A word has a first token. -/
theorem exists_cons_of_mem_words {tokens word : List Token} (inside : word ∈ (words tokens).1) :
    ∃ first more, word = first :: more := by
  fun_induction words tokens with
  | case1 => cases inside
  | case2 token tokens _ tail later rest same ih =>
    rw [same] at ih
    obtain rfl | inside := List.mem_cons.mp inside
    · exact ⟨token, tail.1, rfl⟩
    · exact ih inside
  | case3 => cases inside

/-- The tokens that continue a word are counted by its length. -/
theorem length_wordTail (last : Token) (tokens : List Token) :
    (wordTail last tokens).1.length = tailLength last tokens := by
  induction tokens generalizing last with
  | nil => rfl
  | cons token tokens ih =>
    rw [wordTail, tailLength]
    split
    · exact congrArg Nat.succ (ih token)
    · rfl

/-- Where no word has a length, none is cut. -/
theorem words_of_none {tokens : List Token} (empty : wordLength tokens = 0) :
    words tokens = ([], tokens) := by
  cases tokens with
  | nil => rw [words]
  | cons first tokens =>
    have plain : ¬first.kind.startsWord = true := by
      intro starts
      rw [wordLength, if_pos starts] at empty
      exact absurd empty (Nat.succ_ne_zero _)
    rw [words, if_neg plain]

/-- A word that has a length is cut first, and the other words behind it. -/
theorem words_of_length {tokens : List Token} (filled : wordLength tokens ≠ 0) :
    words tokens = (tokens.take (wordLength tokens) :: (words (tokens.drop (wordLength tokens))).1,
      (words (tokens.drop (wordLength tokens))).2) := by
  cases tokens with
  | nil => exact absurd rfl filled
  | cons first tokens =>
    have starts : first.kind.startsWord = true := by
      by_cases starts : first.kind.startsWord = true
      · exact starts
      · rw [wordLength, if_neg starts] at filled
        exact absurd rfl filled
    have whole := wordTail_append first tokens
    have count := length_wordTail first tokens
    have taken : ((wordTail first tokens).1 ++ (wordTail first tokens).2).take
        (tailLength first tokens) = (wordTail first tokens).1 := List.take_left' count
    have left : ((wordTail first tokens).1 ++ (wordTail first tokens).2).drop
        (tailLength first tokens) = (wordTail first tokens).2 := List.drop_left' count
    rw [whole] at taken left
    rw [words, if_pos starts, wordLength, if_pos starts, List.take_succ_cons, List.drop_succ_cons,
      taken, left]

/-- The tokens of a word that was seen. -/
def wordAt (tokens : List Token) (place : Nat × Nat) : List Token :=
  (tokens.drop place.1).take place.2

/-- A word that was seen stands between its first and its last token. -/
theorem ends_wordAt {tokens : List Token} {index count : Nat} {first final : Token}
    (filled : count ≠ 0) (here : tokens[index]? = some first)
    (there : tokens[index + count - 1]? = some final) :
    (wordAt tokens (index, count)).head? = some first ∧
      (wordAt tokens (index, count)).getLast? = some final := by
  have last : index + (count - 1) = index + count - 1 := by omega
  constructor
  · rw [wordAt, List.head?_take, if_neg filled, List.head?_drop, here]
  · rw [wordAt, List.getLast?_take, if_neg filled, List.getElem?_drop, last, there]
    rfl

/-- Whether gaps stand in front of some words is decided word by word. -/
theorem apart_cons {last first final : Token} {word : List Token} {later : List (List Token)}
    (head : word.head? = some first) (tail : word.getLast? = some final) :
    apart last (word :: later) = (!last.adjacentTo first && apart final later) := by
  rw [apart, head, tail]

/-- Looking ahead sees the words that are cut, and nothing if two of them have no gap between
them. -/
theorem lookAhead_eq (tokens : List Token) (last : Token) (index : Nat) :
    match lookAhead tokens last index with
    | none => apart last (words (tokens.drop index)).1 = false
    | some ahead => apart last (words (tokens.drop index)).1 = true ∧
        ahead.words.map (wordAt tokens) = (words (tokens.drop index)).1 ∧
        tokens.drop ahead.stop = (words (tokens.drop index)).2 := by
  fun_induction lookAhead tokens last index with
  | case1 last index count empty =>
    rw [words_of_none empty]
    exact ⟨rfl, rfl, rfl⟩
  | case2 last index count filled first final there here touches =>
    obtain ⟨head, tail⟩ := ends_wordAt filled here there
    rw [words_of_length filled]
    change apart last (wordAt tokens (index, count) :: _) = false
    rw [apart_cons head tail, touches]
    rfl
  | case3 last index count filled first final there here gap unseen ih =>
    obtain ⟨head, tail⟩ := ends_wordAt filled here there
    rw [unseen] at ih
    rw [words_of_length filled, List.drop_drop]
    change apart last (wordAt tokens (index, count) :: _) = false
    rw [apart_cons head tail]
    simp only [count, ih, Bool.and_false]
  | case4 last index count filled first final there here gap ahead seen ih =>
    obtain ⟨head, tail⟩ := ends_wordAt filled here there
    rw [seen] at ih
    obtain ⟨apart, words, stop⟩ := ih
    rw [words_of_length filled, List.drop_drop]
    refine ⟨?_, ?_, ?_⟩
    · change Command.apart last (wordAt tokens (index, count) :: _) = true
      rw [apart_cons head tail, Bool.and_eq_true, Bool.not_eq_true']
      exact ⟨Bool.eq_false_iff.mpr gap, apart⟩
    · exact congrArg (wordAt tokens (index, count) :: ·) words
    · exact stop
  | case5 last index count filled ended =>
    -- A word that has a length has a first and a last token.
    have fits := wordLength_le (tokens.drop index)
    rw [List.length_drop] at fits
    have inside : index < tokens.length := by omega
    have last : index + count - 1 < tokens.length := by omega
    exact (ended _ _ (List.getElem?_eq_getElem inside) (List.getElem?_eq_getElem last)).elim

/-- A command comes next where some tokens begin with one. -/
theorem comesNext_eq_begins (tokens : List Token) : comesNext tokens = begins tokens := by
  cases tokens with
  | nil => rfl
  | cons name tokens =>
    have seen := lookAhead_eq (name :: tokens) name 1
    rw [List.drop_succ_cons, List.drop_zero] at seen
    rw [comesNext, begins]
    cases known : lookAhead (name :: tokens) name 1 with
    | none =>
      rw [known] at seen
      simp [seen]
    | some ahead =>
      rw [known] at seen
      obtain ⟨gaps, found, stop⟩ := seen
      have empty : (words tokens).1.isEmpty = ahead.words.isEmpty := by
        rw [← found, List.isEmpty_map]
      simp [gaps, stop, empty, Bool.and_assoc]

end Command

namespace Parser

/-- The words that are read are those that are cut from the front of the tokens left. -/
theorem readWords_eq (s : State) :
    readWords s = ((Command.words s.rest).1,
      { s with
        consumed := (Command.words s.rest).1.flatten.reverse ++ s.consumed
        rest := (Command.words s.rest).2 }) := by
  fun_induction readWords s with
  | case1 s count empty =>
    rw [Command.words_of_none empty]
    rfl
  | case2 s count filled later ih =>
    rw [Command.words_of_length filled]
    simp only [later, ih, State.behind, List.flatten_cons, List.reverse_append,
      List.append_assoc]
    rfl

/-- The words that come next are read as they are cut. -/
@[simp] theorem commandWords_apply (s : State) :
    commandWords s = .done (Command.words s.rest).1
      { s with
        consumed := (Command.words s.rest).1.flatten.reverse ++ s.consumed
        rest := (Command.words s.rest).2 } := by
  rw [commandWords, readWords_eq]

/-- Asking whether a command begins takes no token. -/
@[simp] theorem atCommand_apply (s : State) :
    atCommand s = .done (Command.begins s.rest) s := by
  rw [atCommand, Command.comesNext_eq_begins]

end Parser

end MatlabFront
