import MatlabFront.Proofs.Expression.Delimited
import MatlabFront.Proofs.Expression.Readable
import MatlabFront.Proofs.Expression.Sound

/-!
# Elements of a literal in one row

A run of tokens is an element when it is read as one expression in front of the bracket that closes
the literal. The elements of a row are set off from each other by commas or by gaps, in any mix. A gap
sets off an element unless it begins with a sign that has a gap behind it too. Each element is then read
as it is read in front of the bracket, so that a row comes to exactly its elements.
-/

namespace MatlabFront

/-- The sorts of literals. -/
inductive LiteralForm where
  | matrix
  | cell
  deriving DecidableEq

namespace LiteralForm

/-- The bracket that opens a literal. -/
def opening : LiteralForm → Kind
  | matrix => .leftBracket
  | cell => .leftBrace

/-- The bracket that closes a literal. -/
def closing : LiteralForm → Kind
  | matrix => .rightBracket
  | cell => .rightBrace

/-- The tree of a literal. -/
def tree (form : LiteralForm) (rows : List (List Expr)) (pos : Position) : Expr :=
  match form with
  | matrix => .matrix rows pos
  | cell => .cell rows pos

/-- A literal is closed by a closing bracket. -/
theorem closes (form : LiteralForm) : form.closing.closesBracket = true := by
  cases form <;> rfl

end LiteralForm

/-- A run of tokens is an element: in front of the closing bracket of a literal one expression is read
in it, which takes the whole run. -/
def Element (form : LiteralForm) (run : List Token) (element : Expr) : Prop :=
  ∃ (steps : Nat) (s final : State) (bracket : Token) (later : List Token),
    bracket.kind = form.closing ∧ s.rest = run ++ bracket :: later ∧
      Parser.expression steps .elements 0 s = .done element final ∧ final.rest = bracket :: later

/-- The last of some tokens is no tilde. -/
def NoLastTilde (run : List Token) : Prop := ∀ last ∈ run.getLast?, last.kind ≠ .tilde

/-- A gap stands between two runs, and none behind a sign with which the second one begins. -/
structure SetOff (run next : List Token) : Prop where
  gap : ∀ last ∈ run.getLast?, ∀ first ∈ next.head?, last.adjacentTo first = false
  sign : ∀ first ∈ next.head?, first.kind = .plus ∨ first.kind = .minus →
    ∀ second ∈ next.tail.head?, first.adjacentTo second = true

namespace Grammar

variable {form : LiteralForm} {run other : List Token} {element : Expr} {s final : State}

/-- What can come first in an element: no operator, an opening bracket, or a sign in front of its
operand. -/
theorem Reads.element_begins {power : Nat}
    (reads : Reads (.expression .elements power element) s final) :
    ∃ token, s.peek = some token ∧ (token.kind.leftPower? = none ∨
      token.kind = .leftParen ∨ token.kind = .leftBrace ∨
        (token.kind = .plus ∨ token.kind = .minus) ∧ final.rest.length + 1 < s.rest.length) := by
  cases reads with
  | expression operand later =>
    have shrinks := later.length_le
    cases operand with
    | ident known kind | number known kind | string known kind | atSign known kind
    | matrix known kind | lastIndex known kind | ignored known kind =>
      exact ⟨_, known, .inl (by rw [kind]; rfl)⟩
    | parens known kind => exact ⟨_, known, .inr (.inl kind)⟩
    | cell known kind => exact ⟨_, known, .inr (.inr (.inl kind))⟩
    | colon _ _ alone => cases alone
    | @unary _ operator _ token _ _ known sign _ inner =>
      have first := State.length_next known
      have second := inner.length_le
      simp only [Phrase.least] at *
      rw [Kind.unaryOperator?_eq_some_iff] at sign
      refine ⟨token, known, ?_⟩
      cases operator with
      | not => exact .inl (by rw [sign]; rfl)
      | plus => exact .inr (.inr (.inr ⟨.inl sign, by omega⟩))
      | minus => exact .inr (.inr (.inr ⟨.inr sign, by omega⟩))

/-- An element goes in front of the rest of its row. -/
theorem Reads.element_cons {row : List Expr} {rows : List (List Expr)} {s₁ : State}
    (head : Reads (.expression .elements 0 element) s s₁)
    (tail : Reads (.elements form.closing true row rows) s₁ final) (afterElement : Bool) :
    Reads (.elements form.closing afterElement (element :: row) rows) s final := by
  obtain ⟨token, here, plain, -⟩ := head.begins
  have known := State.peekKind_of_peek here
  have other := head.peekKind_ne form.closes
  rw [known] at other
  exact .element known (fun same => other (congrArg some same)) plain head tail

end Grammar

namespace Element

variable {form : LiteralForm} {run next other : List Token} {element : Expr}

/-- A run ends an element in front of tokens of which the first is no operator, or begins a new element
behind a gap. -/
def Ends (run other : List Token) : Prop :=
  ∀ token ∈ other.head?, token.kind.leftPower? = none ∨
    Parser.gapBeginsElement run.reverse other = true

/-- How the tokens of an element begin: with no operator, with an opening bracket, or with a sign and
its operand. -/
def Begins (tokens : List Token) : Prop :=
  ∃ first later, tokens = first :: later ∧ (first.kind.leftPower? = none ∨
    first.kind = .leftParen ∨ first.kind = .leftBrace ∨
      (first.kind = .plus ∨ first.kind = .minus) ∧ later ≠ [])

/-- Further tokens may stand behind. -/
theorem Begins.append (begins : Begins run) (more : List Token) : Begins (run ++ more) := by
  obtain ⟨first, later, rfl, kinds⟩ := begins
  refine ⟨first, later ++ more, rfl, kinds.imp_right (Or.imp_right (Or.imp_right ?_))⟩
  exact fun ⟨sign, operand⟩ => ⟨sign, by simp [operand]⟩

/-- An element ends in front of one that is set off from it. -/
theorem ends_of_setOff (filled : run ≠ []) (apart : SetOff run next) (begins : Begins next)
    (more : List Token) : Ends run (next ++ more) := by
  obtain ⟨front, last, rfl⟩ : ∃ front last, run = front ++ [last] :=
    ⟨_, _, (List.dropLast_append_getLast filled).symm⟩
  obtain ⟨first, later, rfl, kinds⟩ := begins
  have gap : last.adjacentTo first = false := apart.gap last (by simp) first rfl
  rintro token ⟨⟩
  obtain plain | kind | kind | ⟨sign, operand⟩ := kinds
  · exact .inl plain
  · exact .inr (by simp [Parser.gapBeginsElement, gap, kind])
  · exact .inr (by simp [Parser.gapBeginsElement, gap, kind])
  · obtain ⟨second, later, rfl⟩ := List.exists_cons_of_ne_nil operand
    have close : first.adjacentTo second = true := apart.sign first rfl sign second rfl
    rcases sign with kind | kind <;>
      exact .inr (by simp [Parser.gapBeginsElement, gap, kind, close])

/-- The tokens of an element are read in the same way wherever it ends behind them. -/
theorem read (whole : Element form run element) (settled : NoLastTilde run) :
    (∀ token ∈ run, token.kind ≠ .error) ∧ Begins run ∧
      ∀ s other, s.rest = run ++ other → Ends run other →
        ∃ final, Grammar.Reads (.expression .elements 0 element) s final ∧
          s.Advances run final := by
  obtain ⟨steps, s, final, bracket, later, -, known, accepted, left⟩ := whole
  have reads : Grammar.Reads (.expression .elements 0 element) s final :=
    Grammar.soundAt steps (.expression .elements 0 element) _ _ accepted
  have filled := reads.length_lt (by simp [Grammar.Phrase.least])
  obtain ⟨taken, advances, clean, moves⟩ := reads.separable rfl
  obtain rfl : taken = run := by
    have whole := advances.rest
    rw [known, left] at whole
    exact (List.append_cancel_right whole).symm
  have nonempty := advances.ne_nil filled
  have last : final.consumed.head? = taken.reverse.head? := by
    rw [advances.consumed, List.head?_append_of_ne_nil _ (by simpa using nonempty)]
  refine ⟨clean, ?_, fun s' other rest ends => ?_⟩
  · obtain ⟨token, here, kinds⟩ := reads.element_begins
    obtain ⟨first, more, rfl⟩ := List.exists_cons_of_ne_nil nonempty
    obtain rfl : token = first :=
      Option.some.inj (here.symm.trans (State.peek_of_rest advances.rest).1)
    refine ⟨token, more, rfl, kinds.imp_right (Or.imp_right (Or.imp_right ?_))⟩
    rintro ⟨sign, longer⟩
    refine ⟨sign, ?_⟩
    rintro rfl
    rw [advances.length, List.length_singleton] at longer
    omega
  · refine moves s' other rest trivial (.inr ⟨fun token inside => ?_, ?_⟩)
    · obtain plain | gap := ends token inside
      · exact .inr fun left entry => by cases plain.symm.trans entry
      · refine .inl ?_
        rw [State.atGap, Parser.gapBeginsElement_congr last rfl fun _ _ _ => rfl, gap]
        rfl
    · rw [last, List.head?_reverse]
      exact settled

end Element

/-- Some tokens are the elements of a row, with a gap or a comma between any two. -/
inductive Row (form : LiteralForm) : List Token → List Expr → Prop where
  | last {run : List Token} {element : Expr} : Element form run element → NoLastTilde run →
    Row form run [element]
  | gap {run tokens : List Token} {element : Expr} {row : List Expr} :
    Element form run element → NoLastTilde run → SetOff run tokens → Row form tokens row →
      Row form (run ++ tokens) (element :: row)
  | comma {run tokens : List Token} {element : Expr} {row : List Expr} {comma : Token} :
    Element form run element → NoLastTilde run → comma.kind = .comma → Row form tokens row →
      Row form (run ++ comma :: tokens) (element :: row)

namespace Row

variable {form : LiteralForm} {tokens rest : List Token} {row : List Expr} {closing opening : Token}
  {s : State}

/-- A row begins as its first element does. -/
theorem begins (whole : Row form tokens row) : Element.Begins tokens := by
  cases whole with
  | last element settled => exact (element.read settled).2.1
  | gap element settled | comma element settled => exact (element.read settled).2.1.append _

/-- The tokens of a row hold no error. -/
theorem clean (whole : Row form tokens row) : ∀ token ∈ tokens, token.kind ≠ .error := by
  induction whole with
  | last element settled => exact (element.read settled).1
  | gap element settled _ _ later =>
    exact List.forall_mem_append.mpr ⟨(element.read settled).1, later⟩
  | comma element settled kind _ later =>
    exact List.forall_mem_append.mpr ⟨(element.read settled).1,
      List.forall_mem_cons.mpr ⟨by simp [kind], later⟩⟩

/-- A row has at least one element. -/
theorem ne_nil (whole : Row form tokens row) : row ≠ [] := by
  cases whole <;> simp

/-- A row is read up to the closing bracket, as exactly its elements. -/
theorem read (whole : Row form tokens row) (closes : closing.kind = form.closing)
    (known : s.rest = tokens ++ closing :: rest) (afterElement : Bool) :
    ∃ final, Grammar.Reads (.elements form.closing afterElement row []) s final ∧
      s.Advances (tokens ++ [closing]) final := by
  induction whole generalizing s afterElement with
  | @last run element whole settled =>
    have plain : closing.kind.leftPower? = none :=
      leftPower?_of_closesBracket (closes ▸ form.closes)
    obtain ⟨middle, head, advances⟩ :=
      (whole.read settled).2.2 s _ known (by rintro _ ⟨⟩; exact .inl plain)
    obtain ⟨here, -⟩ := State.peek_of_rest (advances.rest_eq known)
    have ending := closes ▸ State.peekKind_of_peek here
    exact ⟨middle.next, head.element_cons (.close ending) afterElement, advances.concat here⟩
  | @gap run tokens element row whole settled apart rowWhole ih =>
    obtain ⟨-, ⟨first, later, filled, -⟩, reads⟩ := whole.read settled
    have nonempty : run ≠ [] := by simp [filled]
    have known : s.rest = run ++ (tokens ++ closing :: rest) := by simpa using known
    obtain ⟨middle, head, advances⟩ :=
      reads s _ known (Element.ends_of_setOff nonempty apart rowWhole.begins _)
    obtain ⟨final, tail, ends⟩ := ih (advances.rest_eq known) true
    exact ⟨final, head.element_cons tail afterElement, by simpa using advances.trans ends⟩
  | @comma run tokens element row comma whole settled kind _ ih =>
    have known : s.rest = run ++ comma :: (tokens ++ closing :: rest) := by simpa using known
    have plain : comma.kind.leftPower? = none := by rw [kind]; rfl
    obtain ⟨middle, head, advances⟩ :=
      (whole.read settled).2.2 s _ known (by rintro _ ⟨⟩; exact .inl plain)
    obtain ⟨here, next⟩ := State.peek_of_rest (advances.rest_eq known)
    obtain ⟨final, tail, ends⟩ := ih next false
    have separates : Grammar.Reads (.elements form.closing true row []) middle final := by
      refine .comma (kind ▸ State.peekKind_of_peek here) (fun same => ?_) tail
      have closes := form.closes
      rw [← same] at closes
      cases closes
    exact ⟨final, head.element_cons separates afterElement,
      by simpa using (advances.concat here).trans ends⟩

/-- A literal of one row is read as an operand wherever it stands. -/
theorem operand (whole : Row form tokens row) (opens : opening.kind = form.opening)
    (closes : closing.kind = form.closing) (nesting : Nesting)
    (known : s.rest = opening :: (tokens ++ closing :: rest)) :
    ∃ final, Grammar.Reads (.operand nesting (form.tree [row] opening.pos)) s final ∧
      s.Advances (opening :: (tokens ++ [closing])) final := by
  obtain ⟨here, next⟩ := State.peek_of_rest known
  obtain ⟨final, reads, advances⟩ := whole.read closes next false
  refine ⟨final, ?_, advances.cons here⟩
  have rows : Parser.rowsOf row [] = [row] := by simp [Parser.rowsOf, whole.ne_nil]
  rw [← rows]
  cases form with
  | matrix => exact .matrix here opens reads
  | cell => exact .cell here opens reads

end Row

end MatlabFront
