import MatlabFront.Proofs.Program.Complete
import MatlabFront.Proofs.Program.Head

/-!
# Programs that are laid out are accepted

However the statements and functions of a program are laid out as tokens, a strict parse comes to
their tree. There is one lemma for each kind of part, which says that the part is read when the
parts in it are, and the theorem puts them together along the layout.
-/

namespace MatlabFront

namespace Surface

variable {s final : State} {run gap rest tokens : List Token}

/-- No token of a statement that is laid out is an error. -/
theorem Laid.clean {piece : Piece} (laid : Laid piece tokens) : Clean tokens := by
  induction laid with
  | empty | noTail | noCases => exact clean_nil
  | body _ filled _ head tail => simp [head, filled.separators.clean, tail]
  | eval slot => exact slot.portable.1
  | assign left sign value _ => simp [left.portable.1, sign, value.portable.1]
  | branch keyword slot filled _ _ last body tail =>
    simp [keyword, slot.portable.1, filled.separators.clean, body, tail, last]
  | whileLoop keyword slot filled _ last body | switch keyword slot filled _ last body =>
    simp [keyword, slot.portable.1, filled.separators.clean, body, last]
  | forLoop keyword name sign slot filled _ last body =>
    simp [keyword, name, sign, slot.portable.1, filled.separators.clean, body, last]
  | forEnclosed keyword opens name sign slot closes filled _ last body =>
    simp [keyword, opens, name, sign, slot.portable.1, closes, filled.separators.clean, body, last]
  | tryOnly keyword separators _ last body => simp [keyword, separators.clean, body, last]
  | tryCatch keyword separators _ middle space _ last body handler =>
    simp [keyword, separators.clean, body, middle, space.clean, handler, last]
  | leave keyword | breakLoop keyword | continueLoop keyword => simp [keyword]
  | @global _ names keyword _ words =>
    have clean : Clean names := by
      intro token inside error
      have word := words token inside
      simp [error] at word
    simp [keyword, clean]
  | otherwiseTail keyword separators _ body | otherwiseCases keyword separators _ body =>
    simp [keyword, separators.clean, body]
  | branchTail keyword slot filled _ _ body tail | caseCases keyword slot filled _ _ body tail =>
    simp [keyword, slot.portable.1, filled.separators.clean, body, tail]

/-- No token of a program that is laid out is an error. -/
theorem ItemsLaid.clean {items : List Item} (laid : ItemsLaid items tokens) : Clean tokens := by
  induction laid with
  | empty => exact clean_nil
  | statement head filled _ tail => simp [head.clean, filled.separators.clean, tail]
  | @function _ _ _ _ _ _ _ _ _ _ _ closing _ keyword outputs name params filled body _ closes _
      tail =>
    have closed : Clean closing := by
      cases closes with
      | written last separators => simp [last, separators.clean]
      | omitted => exact clean_nil
    simp [keyword, outputs.clean, name, params.clean, filled.separators.clean, body.clean, closed,
      tail]

/-- All kinds that end a block are keywords of blocks. -/
def Keywords (ends : Kind → Bool) : Prop := ∀ kind, ends kind = true → kind.isBlockKeyword = true

/-- The keyword that closes a block is one of a block. -/
theorem keywords_endKeyword : Keywords (· == .endKeyword) := by
  intro kind ends
  obtain rfl : kind = .endKeyword := by simpa using ends
  rfl

/-- What ends the body of an `if` is a keyword of a block. -/
theorem keywords_endsBranch : Keywords Parser.endsBranch := by
  intro kind ends
  cases kind <;> first | rfl | cases ends

/-- What ends the body of a `try` is a keyword of a block. -/
theorem keywords_endsTry : Keywords Parser.endsTry := by
  intro kind ends
  cases kind <;> first | rfl | cases ends

/-- What ends the body of a case is a keyword of a block. -/
theorem keywords_endsCase : Keywords Parser.endsCase := by
  intro kind ends
  cases kind <;> first | rfl | cases ends

/-- What ends the body of a function is a keyword of a block. -/
theorem keywords_endsFunction : Keywords Parser.endsFunction := by
  intro kind ends
  cases kind <;> first | rfl | cases ends

/-- How a part that is laid out is read: a statement in front of a gap, the statements of a body in
front of a keyword that ends it, and what follows in an `if` or a `switch` in front of its end. -/
def Piece.Read (run : List Token) : Piece → Prop
  | .body written => ∀ (ends : Kind → Bool) (s : State) (gap rest : List Token), Keywords ends →
    (∀ token ∈ rest.head?, ends token.kind = true) → Separators gap →
      s.rest = gap ++ (run ++ rest) →
      ∃ final, Reads .strict (.block ends written) s final ∧ final.rest = rest
  | .statement written =>
    (∃ first later, run = first :: later ∧ Begins first.kind) ∧
      ∀ (s : State) (gap rest : List Token), Gap gap → s.rest = run ++ (gap ++ rest) →
        ∃ final, Reads .strict (.openStatement written) s final ∧ final.rest = gap ++ rest
  | .tail written => ∀ (last : Token) (later : List Token), last.kind = .endKeyword →
    (∀ token ∈ (run ++ last :: later).head?, Parser.endsBranch token.kind = true) ∧
      ∀ s : State, s.rest = run ++ last :: later →
        ∃ final, Reads .strict (.tail written) s final ∧ final.rest = last :: later
  | .cases written => ∀ (last : Token) (later : List Token), last.kind = .endKeyword →
    (∀ token ∈ (run ++ last :: later).head?, Parser.endsCase token.kind = true) ∧
      ∀ (s : State) (gap : List Token), Separators gap → s.rest = gap ++ (run ++ last :: later) →
        ∃ final, Reads .strict (.cases written) s final ∧ final.rest = last :: later

/-- Names are read one after another up to a gap. -/
theorem names_read {names : List Token} (words : ∀ token ∈ names, token.kind = .ident)
    (filled : Gap gap) (known : s.rest = names ++ (gap ++ rest)) :
    ∃ final, Names (names.map Parser.declared) s final ∧ final.rest = gap ++ rest := by
  induction names generalizing s with
  | nil =>
    refine ⟨s, .stop fun word => ?_, known⟩
    have separates := filled.atSeparator known
    rw [State.atSeparator, word] at separates
    cases separates
  | cons name names ih =>
    obtain ⟨here, next⟩ := State.peek_of_rest known
    obtain ⟨final, reads, left⟩ := @ih (s.next.note name.text)
      (fun token inside => words token (List.mem_cons_of_mem _ inside)) (by simpa using next)
    exact ⟨final, .name here (words name List.mem_cons_self) reads, left⟩

/-- The header of a `for` and the sign in it are read in front of what its range is read in front
of. -/
theorem forHead_read {name sign : Token} {range : Expr} (word : name.kind = .ident)
    (assigned : sign.kind = .assign) (slot : Slot run range)
    (known : s.rest = name :: sign :: (run ++ rest)) (operatorless : Operatorless rest) :
    ∃ final, ForHead (Parser.declared name) range s final ∧ final.rest = rest := by
  obtain ⟨here, next⟩ := State.peek_of_rest known
  have noted : (s.next.note name.text).rest = sign :: (run ++ rest) := by simpa using next
  obtain ⟨there, later⟩ := State.peek_of_rest noted
  obtain ⟨final, reads, left⟩ := slot.portable.2 _ rest later operatorless
  exact ⟨final, .mk here word rfl (assigned ▸ State.peekKind_of_peek there) reads, left⟩

/-- The keyword in front ends a block that it can end. -/
theorem bound_cons {ends : Kind → Bool} {token : Token} (ended : ends token.kind = true) :
    ∀ first ∈ (token :: rest).head?, ends first.kind = true := by
  rintro _ ⟨⟩
  exact ended

/-- A body that an `end` closes is read up to it. -/
theorem body_read {body : List Statement} {last : Token} (read : Piece.Read run (.body body))
    (separators : Separators gap) (ended : last.kind = .endKeyword)
    (known : s.rest = gap ++ (run ++ last :: rest)) :
    ∃ final, Reads .strict (.block (· == .endKeyword) body) s final ∧
      final.rest = last :: rest ∧ final.peekKind = some .endKeyword := by
  obtain ⟨final, reads, left⟩ := read (· == .endKeyword) s gap _ keywords_endKeyword
    (@bound_cons _ (· == .endKeyword) last (beq_iff_eq.mpr ended)) separators known
  obtain ⟨here, -⟩ := State.peek_of_rest left
  exact ⟨final, reads, left, ended ▸ State.peekKind_of_peek here⟩

/-- A condition and the body behind it are read up to a keyword that ends the body. -/
theorem guarded_read {ends : Kind → Bool} {condition : Expr} {body : List Statement}
    {inner : List Token} (slot : Slot run condition) (filled : Gap gap)
    (read : Piece.Read inner (.body body)) (keywords : Keywords ends)
    (bound : ∀ token ∈ rest.head?, ends token.kind = true)
    (known : s.rest = run ++ (gap ++ (inner ++ rest))) :
    ∃ between final, Grammar.Reads (.expression .outside 0 condition) s between ∧
      between.atSeparator = true ∧ Reads .strict (.block ends body) between final ∧
      final.rest = rest := by
  obtain ⟨between, reads, left, separates⟩ := slot.condition filled known
  obtain ⟨final, bodyReads, behind⟩ :=
    read ends between gap rest keywords bound filled.separators left
  exact ⟨between, final, reads, separates, bodyReads, behind⟩

/-- A statement with a keyword in front is read when what stands behind the keyword is. -/
theorem Piece.Read.of_keyword {written : Statement} {keyword : Token} {kind : Kind}
    (known : keyword.kind = kind) (begins : Begins kind)
    (moves : ∀ (s : State) (gap rest : List Token), Gap gap → s.peek = some keyword →
      s.next.rest = run ++ (gap ++ rest) →
      ∃ final, Reads .strict (.openStatement written) s final ∧ final.rest = gap ++ rest) :
    Piece.Read (keyword :: run) (.statement written) := by
  refine ⟨⟨keyword, run, rfl, known ▸ begins⟩, fun s gap rest filled rest_eq => ?_⟩
  obtain ⟨here, next⟩ := State.peek_of_rest rest_eq
  exact moves s gap rest filled here next

/-- What follows in an `if` is read when what stands behind its keyword is. -/
theorem Piece.Read.of_tail {written : Tail} {keyword : Token} {kind : Kind}
    (known : keyword.kind = kind) (ends : Parser.endsBranch kind = true)
    (moves : ∀ (s : State) (last : Token) (later : List Token), last.kind = .endKeyword →
      s.peek = some keyword → s.next.rest = run ++ last :: later →
      ∃ final, Reads .strict (.tail written) s final ∧ final.rest = last :: later) :
    Piece.Read (keyword :: run) (.tail written) := by
  refine fun last later ended => ⟨bound_cons (known ▸ ends), fun s rest_eq => ?_⟩
  obtain ⟨here, next⟩ := State.peek_of_rest rest_eq
  exact moves s last later ended here next

/-- What follows in a `switch` is read when what stands behind its keyword is. -/
theorem Piece.Read.of_cases {written : Cases} {keyword : Token} {kind : Kind}
    (known : keyword.kind = kind) (ends : Parser.endsCase kind = true)
    (moves : ∀ (s : State) (last : Token) (later : List Token), last.kind = .endKeyword →
      s.skipSeparators.peek = some keyword → s.skipSeparators.next.rest = run ++ last :: later →
      ∃ final, Reads .strict (.cases written) s final ∧ final.rest = last :: later) :
    Piece.Read (keyword :: run) (.cases written) := by
  have bound : Parser.endsCase keyword.kind = true := known ▸ ends
  refine fun last later ended => ⟨bound_cons bound, fun s gap separators rest_eq => ?_⟩
  have skipped : s.skipSeparators.rest = keyword :: run ++ last :: later := by
    refine separators.skip rest_eq ?_
    rintro _ ⟨⟩
    exact noSeparator_of_isBlockKeyword (keywords_endsCase _ bound)
  obtain ⟨here, next⟩ := State.peek_of_rest skipped
  exact moves s last later ended here next

section Statements

variable {condition range : Expr} {body : List Statement} {tail : Tail} {cases : Cases}
  {keyword name sign last : Token} {inner more : List Token}

/-- In front of the keyword that ends a body there are no more statements. -/
theorem Piece.Read.empty : Piece.Read [] (.body []) := by
  intro ends s gap rest keywords bound separators known
  have skipped : s.skipSeparators.rest = rest := separators.skip known
    fun token head => noSeparator_of_isBlockKeyword (keywords _ (bound token head))
  refine ⟨s.skipSeparators, .blockEnd ?_, skipped⟩
  cases rest with
  | nil => simp [State.peekKind, skipped]
  | cons token rest => simpa [State.peekKind, skipped] using bound

/-- A body goes on behind its first statement. -/
theorem Piece.Read.cons {first : Statement} {later : List Token}
    (head : Piece.Read run (.statement first)) (filled : Gap gap)
    (tail : Piece.Read later (.body body)) :
    Piece.Read (run ++ gap ++ later) (.body (first :: body)) := by
  intro ends s space rest keywords bound separators known
  obtain ⟨⟨token, more, rfl, begins⟩, moves⟩ := head
  have skipped : s.skipSeparators.rest = token :: more ++ (gap ++ (later ++ rest)) := by
    refine separators.skip (by simpa using known) ?_
    rintro _ ⟨⟩
    exact begins.noSeparator
  have goes : ends token.kind = false :=
    Bool.eq_false_iff.mpr fun ended => by simpa [begins.noKeyword] using keywords _ ended
  obtain ⟨s₁, reads, left⟩ := moves s.skipSeparators gap (later ++ rest) filled skipped
  obtain ⟨final, later, last⟩ := tail ends s₁ gap rest keywords bound filled.separators left
  obtain ⟨here, -⟩ := State.peek_of_rest skipped
  exact ⟨final, .block (State.peekKind_of_peek here) goes begins.noKeyword
    (.statement reads (filled.atTerminator left)) later, last⟩

/-- An expression that stands in a slot is read as a statement. -/
theorem Piece.Read.eval {expr : Expr} (slot : Slot run expr) :
    Piece.Read run (.statement (.eval expr)) := by
  obtain ⟨first, later, rfl, begins, plain⟩ := slot.begins
  refine ⟨⟨first, later, rfl, begins⟩, fun s gap rest filled known => ?_⟩
  obtain ⟨final, reads, left⟩ := slot.portable.2 s _ known filled.operatorless
  obtain ⟨here, -⟩ := State.peek_of_rest known
  exact ⟨final, .eval (State.peekKind_of_peek here ▸ plain) (.inl rfl) reads
    (filled.no_assign left), left⟩

/-- An assignment is read as an expression, its sign, which is no operator, and a value. -/
theorem Piece.Read.assign {written : Statement} {left value : Expr} (slot : Slot run left)
    (assigned : sign.kind = .assign) (valueSlot : Slot more value)
    (assigns : Assigns sign.pos left value written) :
    Piece.Read (run ++ sign :: more) (.statement written) := by
  obtain ⟨first, later, rfl, begins, plain⟩ := slot.begins
  refine ⟨⟨first, _, rfl, begins⟩, fun s gap rest filled known => ?_⟩
  have known : s.rest = first :: later ++ (sign :: (more ++ (gap ++ rest))) := by
    simpa using known
  obtain ⟨s₁, reads, left⟩ := slot.portable.2 s _ known
    (operatorless_cons (by rw [assigned]; rfl))
  obtain ⟨here, -⟩ := State.peek_of_rest known
  obtain ⟨there, next⟩ := State.peek_of_rest left
  obtain ⟨final, valueReads, last⟩ := valueSlot.portable.2 s₁.next _ next filled.operatorless
  exact ⟨final, .assign (State.peekKind_of_peek here ▸ plain) (.inl rfl) reads there assigned
    valueReads assigns, last⟩

/-- An `if` that is laid out is read when its body and its alternatives are. -/
theorem Piece.Read.branch (kind : keyword.kind = .ifKeyword) (slot : Slot run condition)
    (filled : Gap gap) (first : Piece.Read inner (.body body))
    (second : Piece.Read more (.tail tail))
    (ended : last.kind = .endKeyword) :
    Piece.Read (keyword :: run ++ gap ++ inner ++ more ++ [last])
      (.statement (.branch condition body tail keyword.pos)) := by
  refine .of_keyword kind ⟨rfl, rfl⟩ fun s space later _ here next => ?_
  have next : s.next.rest = run ++ (gap ++ (inner ++ (more ++ last :: (space ++ later)))) := by
    simpa using next
  obtain ⟨bound, moves⟩ := second last (space ++ later) ended
  obtain ⟨s₁, s₂, reads, separates, bodyReads, behind⟩ :=
    guarded_read slot filled first keywords_endsBranch bound next
  obtain ⟨s₃, tailReads, closing⟩ := moves s₂ behind
  obtain ⟨there, done⟩ := State.peek_of_rest closing
  exact ⟨s₃.next, .branch here kind reads (.separator separates) bodyReads tailReads
    (ended ▸ State.peekKind_of_peek there), done⟩

/-- A `while` that is laid out is read when its body is. -/
theorem Piece.Read.whileLoop (kind : keyword.kind = .whileKeyword) (slot : Slot run condition)
    (filled : Gap gap) (read : Piece.Read inner (.body body)) (ended : last.kind = .endKeyword) :
    Piece.Read (keyword :: run ++ gap ++ inner ++ [last])
      (.statement (.whileLoop condition body keyword.pos)) := by
  refine .of_keyword kind ⟨rfl, rfl⟩ fun s space later _ here next => ?_
  have next : s.next.rest = run ++ (gap ++ (inner ++ last :: (space ++ later))) := by
    simpa using next
  obtain ⟨s₁, reads, left, separates⟩ := slot.condition filled next
  obtain ⟨s₂, bodyReads, behind, closing⟩ := body_read read filled.separators ended left
  obtain ⟨-, done⟩ := State.peek_of_rest behind
  exact ⟨s₂.next, .whileLoop here kind reads separates bodyReads closing, done⟩

/-- A `for` that is laid out is read when its body is. -/
theorem Piece.Read.forLoop (kind : keyword.kind = .forKeyword) (word : name.kind = .ident)
    (assigned : sign.kind = .assign) (slot : Slot run range) (filled : Gap gap)
    (read : Piece.Read inner (.body body)) (ended : last.kind = .endKeyword) :
    Piece.Read (keyword :: name :: sign :: run ++ gap ++ inner ++ [last])
      (.statement (.forLoop (Parser.declared name) range body keyword.pos)) := by
  refine .of_keyword kind ⟨rfl, rfl⟩ fun s space later _ here next => ?_
  have next : s.next.rest =
      name :: sign :: (run ++ (gap ++ (inner ++ last :: (space ++ later)))) := by simpa using next
  have bare : s.next.headerEnclosed = false := by
    simp [State.headerEnclosed, State.peekKind, next, word]
  obtain ⟨s₁, reads, left⟩ := forHead_read word assigned slot next filled.operatorless
  obtain ⟨s₂, bodyReads, behind, closing⟩ := body_read read filled.separators ended left
  obtain ⟨-, done⟩ := State.peek_of_rest behind
  exact ⟨s₂.next, .forLoop here kind bare reads (filled.atSeparator left) bodyReads closing, done⟩

/-- A loop with its header in parentheses is known from the three tokens behind its keyword. -/
theorem Piece.Read.forEnclosed {opening closing : Token} (kind : keyword.kind = .forKeyword)
    (opens : opening.kind = .leftParen) (word : name.kind = .ident)
    (assigned : sign.kind = .assign) (slot : Slot run range) (closes : closing.kind = .rightParen)
    (filled : Gap gap) (read : Piece.Read inner (.body body)) (ended : last.kind = .endKeyword) :
    Piece.Read (keyword :: opening :: name :: sign :: run ++ closing :: gap ++ inner ++ [last])
      (.statement (.forLoop (Parser.declared name) range body keyword.pos)) := by
  refine .of_keyword kind ⟨rfl, rfl⟩ fun s space later _ here next => ?_
  have next : s.next.rest = opening :: name :: sign ::
      (run ++ closing :: (gap ++ (inner ++ last :: (space ++ later)))) := by simpa using next
  obtain ⟨-, header⟩ := State.peek_of_rest next
  have enclosed : s.next.headerEnclosed = true := by
    simp [State.headerEnclosed, State.peekKind, State.secondKind, State.thirdKind, next, opens,
      word, assigned]
  obtain ⟨s₁, reads, left⟩ := forHead_read word assigned slot header
    (operatorless_cons (by rw [closes]; rfl))
  obtain ⟨close, behind⟩ := State.peek_of_rest left
  obtain ⟨s₂, bodyReads, final, ending⟩ := body_read read filled.separators ended behind
  obtain ⟨-, done⟩ := State.peek_of_rest final
  exact ⟨s₂.next, .forEnclosed here kind enclosed reads (closes ▸ State.peekKind_of_peek close)
    (filled.atSeparator behind) bodyReads ending, done⟩

/-- A switch that is laid out is read when its cases are. -/
theorem Piece.Read.switch {subject : Expr} (kind : keyword.kind = .switchKeyword)
    (slot : Slot run subject) (filled : Gap gap) (read : Piece.Read inner (.cases cases))
    (ended : last.kind = .endKeyword) :
    Piece.Read (keyword :: run ++ gap ++ inner ++ [last]) (.statement (.switch subject cases)) := by
  refine .of_keyword kind ⟨rfl, rfl⟩ fun s space later _ here next => ?_
  have next : s.next.rest = run ++ (gap ++ (inner ++ last :: (space ++ later))) := by
    simpa using next
  obtain ⟨s₁, reads, left, separates⟩ := slot.condition filled next
  obtain ⟨-, moves⟩ := read last (space ++ later) ended
  obtain ⟨s₂, casesReads, behind⟩ := moves s₁ gap filled.separators left
  obtain ⟨there, done⟩ := State.peek_of_rest behind
  exact ⟨cases.logged s₂.next, .switch (kind ▸ State.peekKind_of_peek here) reads
    separates casesReads (ended ▸ State.peekKind_of_peek there), by simpa using done⟩

/-- A `try` without a handler that is laid out is read when its body is. -/
theorem Piece.Read.tryOnly (kind : keyword.kind = .tryKeyword) (separators : Separators gap)
    (read : Piece.Read inner (.body body)) (ended : last.kind = .endKeyword) :
    Piece.Read (keyword :: gap ++ inner ++ [last])
      (.statement (.tryCatch body [] keyword.pos)) := by
  refine .of_keyword kind ⟨rfl, rfl⟩ fun s space later _ here next => ?_
  have next : s.next.rest = gap ++ (inner ++ last :: (space ++ later)) := by simpa using next
  obtain ⟨s₁, reads, behind⟩ := read Parser.endsTry s.next gap _ keywords_endsTry
    (bound_cons (by rw [ended]; rfl)) separators next
  obtain ⟨there, done⟩ := State.peek_of_rest behind
  exact ⟨s₁.next, .tryOnly here kind reads (ended ▸ State.peekKind_of_peek there), done⟩

/-- A `try` with a handler that is laid out is read when both of its bodies are. -/
theorem Piece.Read.tryCatch {handler : List Statement} {middle : Token} {between : List Token}
    (kind : keyword.kind = .tryKeyword) (separators : Separators gap)
    (first : Piece.Read inner (.body body)) (catches : middle.kind = .catchKeyword)
    (apart : Separators between) (second : Piece.Read more (.body handler))
    (ended : last.kind = .endKeyword) :
    Piece.Read (keyword :: gap ++ inner ++ middle :: between ++ more ++ [last])
      (.statement (.tryCatch body handler keyword.pos)) := by
  refine .of_keyword kind ⟨rfl, rfl⟩ fun s space later _ here next => ?_
  have next : s.next.rest = gap ++ (inner ++
      middle :: (between ++ (more ++ last :: (space ++ later)))) := by simpa using next
  obtain ⟨s₁, reads, left⟩ := first Parser.endsTry s.next gap _ keywords_endsTry
    (bound_cons (by rw [catches]; rfl)) separators next
  obtain ⟨caught, behind⟩ := State.peek_of_rest left
  obtain ⟨s₂, handlerReads, closed, closing⟩ := body_read second apart ended behind
  obtain ⟨-, done⟩ := State.peek_of_rest closed
  exact ⟨s₂.next, .tryCatch here kind reads (catches ▸ State.peekKind_of_peek caught)
    handlerReads closing, done⟩

/-- The names of a `global` are read up to the gap behind them. -/
theorem Piece.Read.global {names : List Token} (kind : keyword.kind = .globalKeyword)
    (nonempty : names ≠ []) (words : ∀ token ∈ names, token.kind = .ident) :
    Piece.Read (keyword :: names)
      (.statement (.global (names.map Parser.declared) keyword.pos)) := by
  refine .of_keyword kind ⟨rfl, rfl⟩ fun s gap rest filled here next => ?_
  obtain ⟨final, reads, left⟩ := names_read words filled next
  obtain ⟨name, names, rfl⟩ := List.exists_cons_of_ne_nil nonempty
  exact ⟨final, .global here kind reads, left⟩

/-- Where the closing keyword comes next there is no alternative. -/
theorem Piece.Read.noTail : Piece.Read [] (.tail .none) := by
  intro last later ended
  refine ⟨bound_cons (by rw [ended]; rfl), fun s known => ⟨s, ?_, known⟩⟩
  obtain ⟨here, -⟩ := State.peek_of_rest known
  have closing : s.peekKind = some .endKeyword := ended ▸ State.peekKind_of_peek here
  exact .noTail (by simp [closing]) (by simp [closing])

/-- An `else` that is laid out is read when its body is. -/
theorem Piece.Read.otherwiseTail (kind : keyword.kind = .elseKeyword) (separators : Separators gap)
    (read : Piece.Read inner (.body body)) :
    Piece.Read (keyword :: gap ++ inner) (.tail (.otherwise body)) := by
  refine .of_tail kind rfl fun s last later ended here next => ?_
  have next : s.next.rest = gap ++ (inner ++ last :: later) := by simpa using next
  obtain ⟨final, reads, left, -⟩ := body_read read separators ended next
  exact ⟨final, .otherwiseTail (kind ▸ State.peekKind_of_peek here) reads, left⟩

/-- An `elseif` that is laid out is read when its body and the alternatives behind it are. -/
theorem Piece.Read.branchTail (kind : keyword.kind = .elseIfKeyword) (slot : Slot run condition)
    (filled : Gap gap) (first : Piece.Read inner (.body body))
    (second : Piece.Read more (.tail tail)) :
    Piece.Read (keyword :: run ++ gap ++ inner ++ more)
      (.tail (.branch condition body tail keyword.pos)) := by
  refine .of_tail kind rfl fun s last later ended here next => ?_
  have next : s.next.rest = run ++ (gap ++ (inner ++ (more ++ last :: later))) := by
    simpa using next
  obtain ⟨bound, moves⟩ := second last later ended
  obtain ⟨s₁, s₂, reads, separates, bodyReads, behind⟩ :=
    guarded_read slot filled first keywords_endsBranch bound next
  obtain ⟨final, tailReads, closing⟩ := moves s₂ behind
  exact ⟨final, .branchTail here kind reads separates bodyReads tailReads, closing⟩

/-- Where the closing keyword comes next there are no cases. -/
theorem Piece.Read.noCases : Piece.Read [] (.cases .none) := by
  intro last later ended
  refine ⟨bound_cons (by rw [ended]; rfl), fun s gap separators known => ?_⟩
  have skipped : s.skipSeparators.rest = last :: later :=
    separators.skip known (by rintro _ ⟨⟩; rw [ended]; rfl)
  obtain ⟨here, -⟩ := State.peek_of_rest skipped
  have closing : s.skipSeparators.peekKind = some .endKeyword :=
    ended ▸ State.peekKind_of_peek here
  exact ⟨_, .noCases (by simp [closing]) (by simp [closing]), skipped⟩

/-- An `otherwise` that is laid out is read when its body is. -/
theorem Piece.Read.otherwiseCases (kind : keyword.kind = .otherwiseKeyword)
    (separators : Separators gap) (read : Piece.Read inner (.body body)) :
    Piece.Read (keyword :: gap ++ inner) (.cases (.otherwise body)) := by
  refine .of_cases kind rfl fun s last later ended here next => ?_
  have next : s.skipSeparators.next.rest = gap ++ (inner ++ last :: later) := by simpa using next
  obtain ⟨final, reads, left, -⟩ := body_read read separators ended next
  exact ⟨final, .otherwiseCases (kind ▸ State.peekKind_of_peek here) reads, left⟩

/-- A `case` that is laid out is read when its body and the cases behind it are. -/
theorem Piece.Read.caseCases {value : Expr} (kind : keyword.kind = .caseKeyword)
    (slot : Slot run value) (filled : Gap gap) (first : Piece.Read inner (.body body))
    (second : Piece.Read more (.cases cases)) :
    Piece.Read (keyword :: run ++ gap ++ inner ++ more)
      (.cases (.case value body cases keyword.pos)) := by
  refine .of_cases kind rfl fun s last later ended here next => ?_
  have next : s.skipSeparators.next.rest = run ++ (gap ++ (inner ++ (more ++ last :: later))) := by
    simpa using next
  obtain ⟨bound, moves⟩ := second last later ended
  obtain ⟨s₁, s₂, reads, separates, bodyReads, behind⟩ :=
    guarded_read slot filled first keywords_endsCase bound next
  obtain ⟨final, casesReads, closing⟩ := moves s₂ [] (by simp [Separators]) behind
  exact ⟨final, .caseCases here kind reads separates bodyReads casesReads, closing⟩

end Statements

/-- Every part that is laid out is read. -/
theorem Laid.read {piece : Piece} (laid : Laid piece run) : piece.Read run := by
  induction laid with
  | empty => exact .empty
  | body _ filled _ head tail => exact .cons head filled tail
  | eval slot => exact .eval slot
  | assign slot assigned valueSlot assigns => exact .assign slot assigned valueSlot assigns
  | branch kind slot filled _ _ ended head tail => exact .branch kind slot filled head tail ended
  | whileLoop kind slot filled _ ended head => exact .whileLoop kind slot filled head ended
  | forLoop kind word assigned slot filled _ ended head =>
    exact .forLoop kind word assigned slot filled head ended
  | forEnclosed kind opens word assigned slot closes filled _ ended head =>
    exact .forEnclosed kind opens word assigned slot closes filled head ended
  | switch kind slot filled _ ended head => exact .switch kind slot filled head ended
  | tryOnly kind separators _ ended head => exact .tryOnly kind separators head ended
  | tryCatch kind separators _ catches apart _ ended head handler =>
    exact .tryCatch kind separators head catches apart handler ended
  | leave kind =>
    exact .of_keyword kind ⟨rfl, rfl⟩ fun s gap rest _ here next => ⟨s.next, .leave here kind, next⟩
  | breakLoop kind =>
    exact .of_keyword kind ⟨rfl, rfl⟩ fun s gap rest _ here next =>
      ⟨s.next, .breakLoop here kind, next⟩
  | continueLoop kind =>
    exact .of_keyword kind ⟨rfl, rfl⟩ fun s gap rest _ here next =>
      ⟨s.next, .continueLoop here kind, next⟩
  | global kind nonempty words => exact .global kind nonempty words
  | noTail => exact .noTail
  | otherwiseTail kind separators _ head => exact .otherwiseTail kind separators head
  | branchTail kind slot filled _ _ head tail => exact .branchTail kind slot filled head tail
  | noCases => exact .noCases
  | otherwiseCases kind separators _ head => exact .otherwiseCases kind separators head
  | caseCases kind slot filled _ _ head tail => exact .caseCases kind slot filled head tail

/-- A function is left behind what closes it, in front of separators and what follows. -/
theorem Closes.leave {closing later : List Token} (closes : Closes later closing)
    (known : s.rest = closing ++ later) :
    ∃ gap, Separators gap ∧ s.leave.rest = gap ++ later := by
  cases closes with
  | @written last gap ended separators =>
    obtain ⟨here, next⟩ := State.peek_of_rest known
    have closing : s.peekKind = some .endKeyword := ended ▸ State.peekKind_of_peek here
    refine ⟨gap, separators, ?_⟩
    rw [State.leave_rest, if_pos closing]
    exact next
  | omitted opens =>
    have unclosed : s.peekKind ≠ some .endKeyword := by
      intro ended
      obtain ⟨token, here, kind⟩ := State.peek_of_peekKind ended
      rw [State.peek, known] at here
      rw [opens token here] at kind
      cases kind
    refine ⟨[], by simp [Separators], ?_⟩
    rw [State.leave_rest, if_neg unclosed]
    exact known

/-- The body of a function ends where the function does. -/
theorem Closes.ends {closing later : List Token} (closes : Closes later closing) :
    ∀ token ∈ (closing ++ later).head?, Parser.endsFunction token.kind = true := by
  cases closes with
  | written ended => exact bound_cons (by rw [ended]; rfl)
  | omitted opens =>
    intro token head
    rw [opens token head]
    rfl

/-- A program that is laid out is read to its end. -/
theorem ItemsLaid.read {items : List Item} (laid : ItemsLaid items tokens)
    (separators : Separators gap) (known : s.rest = gap ++ tokens) :
    ∃ final, Reads .strict (.items items) s final ∧ final.rest = [] := by
  induction laid generalizing s gap with
  | empty =>
    have skipped : s.skipSeparators.rest = [] := separators.skip known (by rintro _ ⟨⟩)
    exact ⟨s.skipSeparators, .noItems (List.head?_eq_none_iff.mpr skipped), skipped⟩
  | @statement first items run space later head filled _ ih =>
    obtain ⟨⟨token, more, rfl, begins⟩, moves⟩ := head.read
    have skipped : s.skipSeparators.rest = token :: more ++ (space ++ later) := by
      refine separators.skip (by simpa using known) ?_
      rintro _ ⟨⟩
      exact begins.noSeparator
    obtain ⟨s₁, reads, left⟩ := moves s.skipSeparators space later filled skipped
    obtain ⟨final, tail, last⟩ := ih filled.separators left
    obtain ⟨here, -⟩ := State.peek_of_rest skipped
    exact ⟨final, .item (State.peekKind_of_peek here) begins.noKeyword
      (.statement reads (filled.atTerminator left)) tail, last⟩
  | @function outputs params uses body items keyword name front behind space inner closing later
      kind declares word takes filled bodyLaid counts closes _ ih =>
    have skipped : s.skipSeparators.rest = keyword ::
        (front ++ name :: (behind ++ (space ++ (inner ++ (closing ++ later))))) :=
      separators.skip (by simpa using known) (by rintro _ ⟨⟩; rw [kind]; rfl)
    obtain ⟨here, next⟩ := State.peek_of_rest skipped
    obtain ⟨s₁, headReads, left⟩ :=
      @head_read _ _ _ _ _ _ keyword.pos _ _ declares word takes filled next
    obtain ⟨s₂, bodyReads, behind⟩ := bodyLaid.read Parser.endsFunction (s₁.enter _) space
      (closing ++ later) keywords_endsFunction closes.ends filled.separators left
    obtain ⟨gap, between, last⟩ := closes.leave behind
    obtain ⟨final, tail, ended⟩ := @ih (s₂.leave.log _) _ between last
    obtain ⟨-, noted⟩ := State.Notes.usesNargin (s := s₁.enter _) rfl bodyReads.noted
    obtain rfl : s₂.usesNargin = uses := Bool.eq_iff_iff.mpr (noted.trans counts.symm)
    exact ⟨final, .function here kind headReads bodyReads tail rfl, ended⟩

end Surface

/-- However a program is laid out as tokens, a strict parse comes to its tree: the conditions that
stand for its switches, returns with the outputs of their function, and functions that end with a
return. -/
theorem Program.ofTokens_of_laid {items : List Surface.Item} {tokens : List Token}
    (laid : Surface.ItemsLaid items tokens) :
    Program.ofTokens .strict tokens = some (.ok ⟨items.flatMap Surface.Item.lower⟩) := by
  obtain ⟨final, reads, ended⟩ :=
    @Surface.ItemsLaid.read (.start tokens) [] tokens items laid (by simp [Surface.Separators]) rfl
  refine Surface.program_accepted reads ended (List.find?_eq_none.mpr fun token inside => ?_)
  simpa using laid.clean token inside

/-- One function stands in front of another without an `end`. Its return names its output, its
switch is a condition, and a return is put behind both bodies. -/
theorem Program.ofTokens_of_unclosed :
    Program.ofTokens .strict
      [⟨.functionKeyword, "function", ⟨1, 0⟩⟩, ⟨.ident, "r", ⟨1, 9⟩⟩, ⟨.assign, "=", ⟨1, 11⟩⟩,
        ⟨.ident, "f", ⟨1, 13⟩⟩, ⟨.newline, "\n", ⟨1, 14⟩⟩, ⟨.switchKeyword, "switch", ⟨2, 15⟩⟩,
        ⟨.number, "1", ⟨2, 22⟩⟩, ⟨.semicolon, ";", ⟨2, 23⟩⟩, ⟨.newline, "\n", ⟨2, 24⟩⟩,
        ⟨.caseKeyword, "case", ⟨3, 25⟩⟩, ⟨.number, "2", ⟨3, 30⟩⟩, ⟨.comma, ",", ⟨3, 31⟩⟩,
        ⟨.returnKeyword, "return", ⟨3, 33⟩⟩, ⟨.newline, "\n", ⟨3, 39⟩⟩, ⟨.endKeyword, "end", ⟨4, 40⟩⟩,
        ⟨.newline, "\n", ⟨4, 43⟩⟩, ⟨.functionKeyword, "function", ⟨5, 44⟩⟩, ⟨.ident, "g", ⟨5, 53⟩⟩,
        ⟨.newline, "\n", ⟨5, 54⟩⟩] =
      some (.ok ⟨[
        .function (.mk ⟨⟨"f", ⟨1, 13⟩⟩, [], [⟨"r", ⟨1, 9⟩⟩], false, ⟨1, 0⟩⟩
          [.branch (.mk (.binary (.number "2" ⟨3, 30⟩) .equal (.number "1" ⟨2, 22⟩) ⟨3, 25⟩)
              [.leave [⟨"r", ⟨1, 9⟩⟩] ⟨3, 33⟩] (.block []) ⟨3, 25⟩),
            .leave [⟨"r", ⟨1, 9⟩⟩] ⟨1, 0⟩]),
        .function (.mk ⟨⟨"g", ⟨5, 53⟩⟩, [], [], false, ⟨5, 44⟩⟩ [.leave [] ⟨5, 44⟩])]⟩) := by
  have subject : Surface.Slot [⟨.number, "1", ⟨2, 22⟩⟩] (.number "1" ⟨2, 22⟩) :=
    ⟨9, ⟨.newline, "\n", ⟨2, 23⟩⟩, [], _, rfl, rfl, rfl⟩
  have value : Surface.Slot [⟨.number, "2", ⟨3, 30⟩⟩] (.number "2" ⟨3, 30⟩) :=
    ⟨9, ⟨.newline, "\n", ⟨3, 31⟩⟩, [], _, rfl, rfl, rfl⟩
  have newline (pos : Position) : Surface.Gap [⟨.newline, "\n", pos⟩] :=
    ⟨by simp, by simp [Surface.Separators, Kind.isSeparator]⟩
  have semicolon : Surface.Gap [⟨.semicolon, ";", ⟨2, 23⟩⟩, ⟨.newline, "\n", ⟨2, 24⟩⟩] :=
    ⟨by simp, by simp [Surface.Separators, Kind.isSeparator]⟩
  have comma : Surface.Gap [⟨.comma, ",", ⟨3, 31⟩⟩] :=
    ⟨by simp, by simp [Surface.Separators, Kind.isSeparator]⟩
  have choice : (⟨.switchKeyword, "switch", ⟨2, 15⟩⟩ : Token).kind = .switchKeyword := rfl
  have option : (⟨.caseKeyword, "case", ⟨3, 25⟩⟩ : Token).kind = .caseKeyword := rfl
  have back : (⟨.returnKeyword, "return", ⟨3, 33⟩⟩ : Token).kind = .returnKeyword := rfl
  have last : (⟨.endKeyword, "end", ⟨4, 40⟩⟩ : Token).kind = .endKeyword := rfl
  have switch := Surface.Laid.switch choice subject semicolon
    (.caseCases option value comma (.body (.leave back) (newline ⟨3, 39⟩) .empty) .noCases) last
  have outputs := @Surface.OutputsLaid.single ⟨.ident, "r", ⟨1, 9⟩⟩ ⟨.assign, "=", ⟨1, 11⟩⟩ rfl rfl
  have word (name : String) (pos : Position) : (⟨.ident, name, pos⟩ : Token).kind = .ident := rfl
  have begins (pos : Position) :
      (⟨.functionKeyword, "function", pos⟩ : Token).kind = .functionKeyword := rfl
  have second := Surface.ItemsLaid.function (begins ⟨5, 44⟩) .none (word "g" ⟨5, 53⟩) .none
    (newline ⟨5, 54⟩) .empty (iff_of_false Bool.false_ne_true (by simp [Surface.exprsAll]))
    (.omitted (by rintro _ ⟨⟩)) .empty
  have first := Surface.ItemsLaid.function (begins ⟨1, 0⟩) outputs (word "f" ⟨1, 13⟩) .none
    (newline ⟨1, 14⟩) (.body switch (newline ⟨4, 43⟩) .empty)
    (iff_of_false Bool.false_ne_true (by
      simp [Surface.exprsAll, Surface.Statement.exprs, Surface.Cases.exprs, Expr.uses_iff_parts,
        Expr.parts]))
    (.omitted (by rintro _ ⟨⟩; rfl)) second
  exact Program.ofTokens_of_laid first

end MatlabFront
