import MatlabFront.Proofs.Parser.Command

/-!
# The names, numbers and strings among the tokens

A leaf is a name, a number or a string at its position. A token of one of these kinds stands for a
leaf on its own; as a part of a longer word of a command it stands for the string that the word
passes. What is read between two states keeps the leaves when each of the tokens between them stands
for one that is borne by what is read.
-/

namespace MatlabFront

/-- A name, number or string where it is written. -/
inductive Leaf where
  | name (name : Ident)
  | number (text : String) (pos : Position)
  | string (value : String) (pos : Position)

/-- The kinds of names, numbers and strings. -/
def Kind.isLeaf : Kind → Bool
  | .ident | .number | .string => true
  | _ => false

namespace Token

/-- The leaf that a token is on its own. -/
def leaf? (token : Token) : Option Leaf :=
  match token.kind with
  | .ident => some (.name ⟨token.text, token.pos⟩)
  | .number => some (.number token.text token.pos)
  | .string => some (.string (Literal.unquote token.text) token.pos)
  | _ => none

/-- A name is the leaf of its token. -/
theorem leaf?_of_ident {token : Token} (kind : token.kind = .ident) :
    token.leaf? = some (.name (Parser.declared token)) := by
  simp [leaf?, kind, Parser.declared]

/-- A number is the leaf of its token. -/
theorem leaf?_of_number {token : Token} (kind : token.kind = .number) :
    token.leaf? = some (.number token.text token.pos) := by
  simp [leaf?, kind]

/-- A string is the leaf of its token, with its quotes taken off. -/
theorem leaf?_of_string {token : Token} (kind : token.kind = .string) :
    token.leaf? = some (.string (Literal.unquote token.text) token.pos) := by
  simp [leaf?, kind]

/-- A token among some others stands for a leaf: for its own, or for the string of a word that it is
in. The lenient dialect reads words in commands. -/
inductive StandsFor (dialect : Dialect) (tokens : List Token) (token : Token) : Leaf → Prop where
  | own {leaf : Leaf} : token.leaf? = some leaf → token.StandsFor dialect tokens leaf
  | word {command first : Token} {later word : List Token} : dialect = .matlab →
    command :: later <:+ tokens → Command.begins (command :: later) = true →
      first :: word ∈ (Command.words later).1 → token ∈ first :: word →
      token.StandsFor dialect tokens
        (.string (String.join ((first :: word).map (·.text))) first.pos)

variable {dialect : Dialect} {tokens : List Token} {token : Token} {leaf : Leaf}

/-- What a token stands for among the last tokens it stands for among all of them. -/
theorem StandsFor.of_suffix {rest : List Token} (suffix : rest <:+ tokens)
    (stands : token.StandsFor dialect rest leaf) : token.StandsFor dialect tokens leaf := by
  cases stands with
  | own leaf => exact .own leaf
  | word lenient command begins inside among =>
    exact .word lenient (command.trans suffix) begins inside among

end Token

/-- The tokens between two states stand for leaves that are borne by what is read from them. -/
structure State.Keeps (s : State) (dialect : Dialect) (bears : Leaf → Prop) (final : State) :
    Prop where
  suffix : final.rest <:+ s.rest
  kept : ∀ token ∈ s.rest, token.kind.isLeaf = true →
    token ∈ final.rest ∨ ∃ leaf, token.StandsFor dialect s.rest leaf ∧ bears leaf

namespace State

variable {dialect : Dialect} {bears borne : Leaf → Prop} {s s₁ s₂ : State} {token : Token}

/-- No token stands between two states with the same tokens behind them. -/
theorem Keeps.of_rest (same : s₁.rest = s.rest) : s.Keeps dialect bears s₁ :=
  ⟨same ▸ List.suffix_rfl, fun _ inside _ => .inl (same ▸ inside)⟩

/-- No leaf is lost where nothing is read. -/
theorem Keeps.refl (s : State) : s.Keeps dialect bears s := .of_rest rfl

/-- What is read in two parts bears what either part bears. -/
theorem Keeps.trans (head : s.Keeps dialect bears s₁) (tail : s₁.Keeps dialect bears s₂) :
    s.Keeps dialect bears s₂ := by
  refine ⟨tail.suffix.trans head.suffix, fun token inside leaf => ?_⟩
  obtain left | here := head.kept token inside leaf
  · obtain left | ⟨leaf, stands, bears⟩ := tail.kept token left leaf
    · exact .inl left
    · exact .inr ⟨leaf, stands.of_suffix head.suffix, bears⟩
  · exact .inr here

/-- What bears more bears it as well. -/
theorem Keeps.imp (keeps : s.Keeps dialect borne s₁) (imp : ∀ leaf, borne leaf → bears leaf) :
    s.Keeps dialect bears s₁ :=
  ⟨keeps.suffix, fun token inside leaf =>
    (keeps.kept token inside leaf).imp_right fun ⟨leaf, stands, borne⟩ =>
      ⟨leaf, stands, imp leaf borne⟩⟩

/-- What is read in two parts bears what one of them bears. -/
theorem Keeps.or (head : s.Keeps dialect bears s₁) (tail : s₁.Keeps dialect borne s₂) :
    s.Keeps dialect (fun leaf => bears leaf ∨ borne leaf) s₂ :=
  (head.imp fun _ => .inl).trans (tail.imp fun _ => .inr)

/-- A state with the same tokens behind it stands for the one behind. -/
theorem Keeps.congr (keeps : s.Keeps dialect bears s₁) (same : s₂.rest = s₁.rest) :
    s.Keeps dialect bears s₂ :=
  keeps.trans (.of_rest same)

/-- The next token is kept when it is no leaf, or its leaf is borne. -/
theorem Keeps.next (known : s.peek = some token)
    (borne : token.kind.isLeaf = true → ∃ leaf, token.leaf? = some leaf ∧ bears leaf) :
    s.Keeps dialect bears s.next := by
  have rest : s.rest = token :: s.next.rest := rest_of_peek known
  refine ⟨rest ▸ List.suffix_cons .., fun other inside leaf => ?_⟩
  rw [rest] at inside
  obtain rfl | later := List.mem_cons.mp inside
  · obtain ⟨leaf, own, bears⟩ := borne leaf
    exact .inr ⟨leaf, .own own, bears⟩
  · exact .inl later

/-- A next token whose leaf is borne is kept. -/
theorem Keeps.leaf {leaf : Leaf} (known : s.peek = some token) (own : token.leaf? = some leaf)
    (borne : bears leaf) : s.Keeps dialect bears s.next :=
  .next known fun _ => ⟨leaf, own, borne⟩

/-- A next token that is no leaf is read over. -/
theorem Keeps.past {kind : Kind} (known : s.peekKind = some kind) (plain : kind.isLeaf = false) :
    s.Keeps dialect bears s.next := by
  obtain ⟨token, here, rfl⟩ := peek_of_peekKind known
  exact .next here fun leaf => by cases plain.symm.trans leaf

/-- What is read behind a token that is no leaf is kept from the token on. -/
theorem Keeps.behind {kind : Kind} (keeps : s.next.Keeps dialect bears s₁)
    (known : s.peekKind = some kind) (plain : kind.isLeaf = false) : s.Keeps dialect bears s₁ :=
  (past known plain).trans keeps

/-- What is read in front of a token that is no leaf is kept up to the token. -/
theorem Keeps.before {kind : Kind} (keeps : s.Keeps dialect bears s₁)
    (known : s₁.peekKind = some kind) (plain : kind.isLeaf = false) :
    s.Keeps dialect bears s₁.next :=
  keeps.trans (.past known plain)

/-- What is read between two tokens that are no leaves is kept with them. -/
theorem Keeps.between {kind last : Kind} (keeps : s.next.Keeps dialect bears s₁)
    (known : s.peekKind = some kind) (ended : s₁.peekKind = some last)
    (plain : kind.isLeaf = false) (lastPlain : last.isLeaf = false) :
    s.Keeps dialect bears s₁.next :=
  (keeps.behind known plain).before ended lastPlain

/-- Tokens that are no leaves are skipped. -/
theorem Keeps.skip (s : State) {test : Kind → Bool}
    (plain : ∀ kind, test kind = true → kind.isLeaf = false) :
    s.Keeps dialect bears (s.skip test) := by
  have whole : s.rest.takeWhile (test ·.kind) ++ (s.skip test).rest = s.rest :=
    List.takeWhile_append_dropWhile
  refine ⟨⟨_, whole⟩, fun token inside leaf => .inl ?_⟩
  rw [← whole] at inside
  refine (List.mem_append.mp inside).resolve_left fun skipped => ?_
  have silent := plain token.kind (List.all_eq_true.mp List.all_takeWhile token skipped)
  cases silent.symm.trans leaf

end State

end MatlabFront
