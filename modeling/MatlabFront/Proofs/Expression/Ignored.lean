import MatlabFront.Proofs.Expression.Consumed
import MatlabFront.Proofs.Expression.Steps
import MatlabFront.Proofs.Expression.WellGrouped
import MatlabFront.Proofs.Token.Opening
import MatlabFront.Proofs.Tree.Names

/-!
# Where an ignored output stands

A tilde is taken for an output to ignore when the innermost bracket is a literal and what follows is
a comma or a closing square bracket. Whether the literal is a list of targets is not known there. So
a name that is a tilde ends an element of some literal, as the element itself or as the last operand
of an operator in it.
-/

namespace MatlabFront

/-- Among some names, a tilde is written as an output or as the end of an element only. -/
def TildesPlaced (names : List (Place × Ident)) : Prop :=
  ∀ entry ∈ names, entry.2.name = "~" → entry.1 ≠ .elsewhere

section

variable {names more : List (Place × Ident)}

/-- Where there are no names, no tilde is out of place. -/
@[simp] theorem tildesPlaced_nil : TildesPlaced [] := nofun

/-- One name is out of place only if it is a tilde that stands elsewhere. -/
theorem tildesPlaced_singleton {place : Place} {name : Ident} :
    TildesPlaced [(place, name)] ↔ (name.name = "~" → place ≠ .elsewhere) := by
  simp [TildesPlaced]

/-- Tildes are well placed in two lists of names when they are so in each. -/
@[simp] theorem tildesPlaced_append :
    TildesPlaced (names ++ more) ↔ TildesPlaced names ∧ TildesPlaced more :=
  List.forall_mem_append

/-- Arguments must hold no tilde but within the literals in them. -/
@[simp] theorem tildesPlaced_argNames {args : List Expr} :
    TildesPlaced (argNames args) ↔ ∀ arg ∈ args, TildesPlaced (arg.names .elsewhere) := by
  simp only [TildesPlaced, mem_argNames]
  exact ⟨fun all arg inside entry among => all entry ⟨arg, inside, among⟩,
    fun all entry ⟨arg, inside, among⟩ => all arg inside entry among⟩

/-- Each element of a row may end with a tilde. -/
@[simp] theorem tildesPlaced_elementNames {row : List Expr} :
    TildesPlaced (elementNames row) ↔ ∀ element ∈ row, TildesPlaced (element.names .element) := by
  simp only [TildesPlaced, mem_elementNames]
  exact ⟨fun all element inside entry among => all entry ⟨element, inside, among⟩,
    fun all entry ⟨element, inside, among⟩ => all element inside entry among⟩

/-- What is asked of rows is asked of all their elements. -/
@[simp] theorem tildesPlaced_rowNames {rows : List (List Expr)} :
    TildesPlaced (rowNames rows) ↔ TildesPlaced (elementNames rows.flatten) := by
  simp only [TildesPlaced, mem_rowNames]

/-- Each target may be a tilde. -/
@[simp] theorem tildesPlaced_outputNames {targets : List Target} :
    TildesPlaced (outputNames targets) ↔
      ∀ target ∈ targets, TildesPlaced (target.names .output) := by
  simp only [TildesPlaced, mem_outputNames]
  exact ⟨fun all target inside entry among => all entry ⟨target, inside, among⟩,
    fun all entry ⟨target, inside, among⟩ => all target inside entry among⟩

/-- Names that are declared or noted on their own must not be tildes. -/
@[simp] theorem tildesPlaced_plainNames {names : List Ident} :
    TildesPlaced (plainNames names) ↔ ∀ name ∈ names, name.name ≠ "~" := by
  simp [TildesPlaced, plainNames]

end

namespace Expr

variable {expr left right callee : Expr} {args : List Expr} {place : Place} {pos : Position}

/-- An expression whose tildes are well placed elsewhere may end an element. -/
theorem tildesPlaced_element (placed : TildesPlaced (expr.names .elsewhere)) :
    TildesPlaced (expr.names .element) := by
  intro entry inside tilde
  obtain same | element := Expr.names_element inside
  · exact placed entry same tilde
  · rw [element]
    decide

/-- The node of an infix operator ends where its right operand does, so that only this one may end
with a tilde. -/
theorem tildesPlaced_infixNode (operator : InfixOperator)
    (leftPlaced : TildesPlaced (left.names .elsewhere))
    (rightPlaced : TildesPlaced (right.names place)) :
    TildesPlaced ((infixNode operator left right pos).names place) := by
  unfold infixNode rangeTo
  split
  · simp [names, leftPlaced, rightPlaced]
  · split
    · simp only [names, tildesPlaced_append] at leftPlaced ⊢
      exact ⟨leftPlaced.1, leftPlaced.2, rightPlaced⟩
    · simp [names, leftPlaced, rightPlaced]

/-- A subscript in parentheses ends with no tilde, wherever it stands. -/
theorem tildesPlaced_apply (calleePlaced : TildesPlaced (callee.names .elsewhere))
    (argsPlaced : TildesPlaced (argNames args)) :
    TildesPlaced ((callee.apply args).names place) := by
  rw [names_apply]
  exact tildesPlaced_append.mpr ⟨calleePlaced, argsPlaced⟩

end Expr

/-- A token that is a name has another text than a tilde. -/
def Token.Worded (token : Token) : Prop := token.kind = .ident → token.text ≠ "~"

/-- A tilde is an operator, alone or with an equals sign. -/
theorem Lexeme.read_tilde (cs : List Char) :
    (read '~' cs).kind = some .notEqual ∨ (read '~' cs).kind = some .tilde :=
  readPair_kind '=' .notEqual .tilde

/-- A lexeme with the text of a tilde is no name. -/
theorem Context.lexeme_tilde (context : Context) (cs : List Char) :
    (context.lexeme '~' cs).kind ≠ some .ident := by
  intro name
  have operator := Lexeme.read_tilde cs
  have plain : (Lexeme.read '~' cs).kind ≠ some .quote := by
    intro quote
    simp [quote] at operator
  obtain same | ⟨-, same⟩ := context.lexeme_cases plain
  · rw [same] at name
    simp [name] at operator
  · rw [same] at name
    cases name

/-- No name among the tokens of a text is a tilde. -/
theorem Context.worded (context : Context) (cs : List Char) :
    ∀ token ∈ context.tokens cs, token.Worded := by
  induction context, cs using Context.tokens.induct with
  | case1 context =>
    rw [Context.tokens]
    exact List.forall_mem_nil _
  | case2 context c cs lexeme text silent ih =>
    rw [Context.tokens, silent]
    exact ih
  | case3 context c cs lexeme text kind known ih =>
    rw [Context.tokens, known]
    refine List.forall_mem_cons.mpr ⟨fun name tilde => ?_, ih⟩
    obtain rfl : kind = .ident := name
    obtain ⟨rfl, -⟩ := List.cons.inj (String.ofList_injective tilde)
    exact context.lexeme_tilde cs known

namespace State

/-- No name among the tokens that are left is a tilde. -/
def Worded (s : State) : Prop := ∀ token ∈ s.rest, token.Worded

variable {s s₁ : State} {token : Token} {nesting : Nesting}

/-- Names that are left later are among those that are left now. -/
theorem Worded.behind (worded : s.Worded) (reaches : s.Reaches s₁) : s₁.Worded :=
  fun token inside => worded token (reaches.suffix.subset inside)

/-- Names behind the next token are among those that are left. -/
theorem Worded.next (worded : s.Worded) : s.next.Worded := worded.behind (Reaches.refl s).next

/-- A name that comes next is no tilde. -/
theorem Worded.text (worded : s.Worded) (known : s.peek = some token) (kind : token.kind = .ident) :
    token.text ≠ "~" :=
  worded token (List.mem_of_head? known) kind

/-- The next token ends an element of a matrix. -/
def endsElement (s : State) : Bool := [some Kind.comma, some .rightBracket].contains s.peekKind

/-- A tilde that stands alone is read in a literal, and nothing more is left of its element. -/
theorem endsElement_of_tildeAlone (alone : s.tildeAlone nesting = true) :
    nesting = .elements ∧ s.next.endsElement = true := by
  cases nesting with
  | elements => exact ⟨rfl, alone⟩
  | outside | group => cases alone

/-- No operator ends an element. -/
theorem endsElement_of_operator (known : s.peek = some token) {left : Nat}
    (operator : token.kind.leftPower? = some left) : s.endsElement = false := by
  rw [endsElement, peekKind_of_peek known]
  cases kind : token.kind <;> first | rfl | (rw [kind] at operator; cases operator)

end State

namespace Grammar

/-- Where the tildes stand in a tree that is read up to a state: they are well placed in it, or it
is in an element that ends there. -/
def TildesPlacedAt (nesting : Nesting) (whole : Expr) (s : State) : Prop :=
  TildesPlaced (whole.names .elsewhere) ∨
    nesting = .elements ∧ s.endsElement = true ∧ TildesPlaced (whole.names .element)

/-- What is known of the tildes in a phrase once it has been read. -/
def Phrase.KeepsTildes (s final : State) : Phrase → Prop
  | .expression nesting _ whole | .operand nesting whole | .handle nesting _ whole =>
    TildesPlacedAt nesting whole final
  | .operators nesting _ left whole =>
    TildesPlacedAt nesting left s → TildesPlacedAt nesting whole final
  | .elements _ _ row rows => TildesPlaced (elementNames (row ++ rows.flatten))
  | .suffix left _ whole =>
    TildesPlaced (left.names .elsewhere) →
      TildesPlaced (whole.names .elsewhere)
  | .arguments _ args | .argumentsFrom _ args => TildesPlaced (argNames args)
  | .parameters _ | .parametersFrom _ => True

variable {nesting : Nesting} {whole made : Expr} {s final : State}

namespace TildesPlacedAt

/-- A tree that ends with another has its tildes where that has them. -/
theorem map (placed : TildesPlacedAt nesting whole s)
    (made_of : ∀ place, TildesPlaced (whole.names place) → TildesPlaced (made.names place)) :
    TildesPlacedAt nesting made s :=
  Or.imp (made_of _) (fun ⟨literal, ended, inside⟩ => ⟨literal, ended, made_of _ inside⟩) placed

/-- In front of an operator no element ends. -/
theorem before {token : Token} (placed : TildesPlacedAt nesting whole s)
    (known : s.peek = some token) {left : Nat} (operator : token.kind.leftPower? = some left) :
    TildesPlaced (whole.names .elsewhere) := by
  obtain closed | ⟨-, ended, -⟩ := placed
  · exact closed
  · rw [State.endsElement_of_operator known operator] at ended
    cases ended

/-- Outside of literals no tilde ends what is read. -/
theorem closed (placed : TildesPlacedAt nesting whole s) (other : nesting ≠ .elements) :
    TildesPlaced (whole.names .elsewhere) :=
  placed.resolve_right fun ⟨literal, _⟩ => other literal

/-- An element of a literal may end with a tilde. -/
theorem element (placed : TildesPlacedAt nesting whole s) : TildesPlaced (whole.names .element) :=
  placed.elim Expr.tildesPlaced_element fun ⟨_, _, inside⟩ => inside

end TildesPlacedAt

/-- The tildes in a phrase end elements, if no name among its tokens is a tilde. -/
theorem Reads.keepsTildes {phrase : Phrase} (reads : Reads phrase s final) :
    s.Worded → phrase.KeepsTildes s final := by
  induction reads with
  | expression first _ head tail =>
    exact fun worded => tail (worded.behind first.reaches) (head worded)
  | stop => exact fun _ => id
  | postfixed known _ entry _ suffix _ head tail =>
    exact fun worded left => tail (worded.behind suffix.reaches)
      (.inl (head worded (left.before known (Kind.leftPower?_of_postfix entry))))
  | infixed known _ entry _ operand _ head tail =>
    intro worded left
    have closed := left.before known (Kind.leftPower?_of_infix entry)
    exact tail (worded.next.behind operand.reaches) (TildesPlacedAt.map (head worded.next)
      fun _ right => Expr.tildesPlaced_infixNode _ closed right)
  | ident known kind =>
    exact fun worded => .inl
      (tildesPlaced_singleton.mpr fun tilde => absurd tilde (worded.text known kind))
  | number | string | lastIndex | colon => exact fun _ => .inl tildesPlaced_nil
  | ignored _ _ alone =>
    obtain ⟨literal, ended⟩ := State.endsElement_of_tildeAlone alone
    exact fun _ => .inr ⟨literal, ended, tildesPlaced_singleton.mpr fun _ => by decide⟩
  | unary _ _ _ _ ih => exact fun worded => TildesPlacedAt.map (ih worded.next) fun _ => id
  | atSign _ _ _ ih => exact fun worded => ih worded.next
  | parens _ _ _ _ ih =>
    intro worded
    have inner : TildesPlacedAt .group _ _ := ih worded.next
    exact .inl (inner.closed (by simp))
  | matrix _ _ _ ih | cell _ _ _ ih =>
    intro worded
    refine .inl (tildesPlaced_rowNames.mpr ?_)
    rw [flatten_rowsOf]
    exact ih worded.next
  | lambda _ params _ _ body =>
    exact fun worded => TildesPlacedAt.map (body (worded.behind params.reaches)) fun _ => id
  | named known kind =>
    exact fun worded => .inl
      (tildesPlaced_singleton.mpr fun tilde => absurd tilde (worded.text known kind))
  | close | noArguments => exact fun _ => tildesPlaced_nil
  | rowEnd _ _ _ _ ih =>
    intro worded
    change TildesPlaced (elementNames ([] ++ (Parser.rowsOf _ _).flatten))
    rw [List.nil_append, flatten_rowsOf]
    exact ih worded.next
  | comma _ _ _ ih => exact fun worded => ih worded.next
  | element _ _ _ first _ head tail =>
    exact fun worded => tildesPlaced_append.mpr
      ⟨TildesPlacedAt.element (head worded), tail (worded.behind first.reaches)⟩
  | call _ _ _ ih => exact fun worded left => Expr.tildesPlaced_apply left (ih worded.next)
  | cellIndex _ _ _ ih => exact fun worded left => tildesPlaced_append.mpr ⟨left, ih worded.next⟩
  | member _ _ known kind =>
    exact fun worded left => tildesPlaced_append.mpr ⟨left, tildesPlaced_singleton.mpr fun tilde =>
      absurd tilde (worded.next.text known kind)⟩
  | dynamic _ _ _ _ _ ih =>
    intro worded left
    have inner : TildesPlacedAt .group _ _ := ih worded.next.next
    exact tildesPlaced_append.mpr ⟨left, inner.closed (by simp)⟩
  | transpose => exact fun _ => id
  | arguments _ _ ih => exact ih
  | argument first _ _ head tail =>
    exact fun worded => tildesPlaced_append.mpr
      ⟨TildesPlacedAt.closed (head worded) (by simp), tail (worded.behind first.reaches).next⟩
  | lastArgument _ _ _ ih =>
    exact fun worded => tildesPlaced_append.mpr
      ⟨TildesPlacedAt.closed (ih worded) (by simp), tildesPlaced_nil⟩
  | noParameters | parameters | parameter | lastParameter => exact fun _ => trivial

end Grammar

end MatlabFront
