import Mathlib.Data.List.Forall2
import MatlabFront.Proofs.Parser.Relocate

/-!
# Which assignments are made

What can be assigned to is a name, a member, a subscript, or a call without outputs of its own, and
the target keeps the parts of the expression. The elements of a matrix on the left become the
outputs of a call in their order. An assignment that is not made has one flaw, the first that is met:
the shape of the matrix, then its elements from the left, and the value last.
-/

namespace MatlabFront

/-- An expression writes a target that keeps its parts. -/
inductive Expr.Writes : Expr → Target → Prop where
  | name (name : Ident) : Writes (.ident name) (.var name)
  | member (object : Expr) (field : Field) (pos : Position) :
    Writes (.member object field pos) (.field object field)
  | cellIndex (object : Expr) (args : List Expr) (pos : Position) :
    Writes (.cellIndex object args pos) (.cellIndex object args)
  | flatten (object : Expr) (args : List Expr) (pos : Position) :
    Writes (.flatten object args pos) (.index object args)
  /-- A call that has no outputs may as well be a subscript. -/
  | call (callee : Expr) (args : List Expr) (pos : Position) :
    Writes (.call (.mk callee args none pos)) (.index callee args)

/-- An expression can be assigned to. -/
def Expr.Assignable (expr : Expr) : Prop := ∃ target, expr.Writes target

/-- A value is the call that gives some outputs. A name is called without arguments. -/
inductive Expr.Gives (outputs : List Target) : Expr → Call → Prop where
  | name (function : Ident) :
    Gives outputs (.ident function) (.mk (.ident function) [] (some outputs) function.pos)
  | call (callee : Expr) (args : List Expr) (pos : Position) :
    Gives outputs (.call (.mk callee args none pos)) (.mk callee args (some outputs) pos)

/-- A value can give outputs: it is a name or a call that has none yet. -/
def Expr.Callable (value : Expr) : Prop :=
  (∃ function, value = .ident function) ∨
    ∃ callee args pos, value = .call (.mk callee args none pos)

/-- A value can give outputs exactly when it gives any that are asked for. -/
theorem Expr.exists_gives_iff {value : Expr} (outputs : List Target) :
    (∃ call, value.Gives outputs call) ↔ value.Callable := by
  constructor
  · rintro ⟨_, function | ⟨callee, args, pos⟩⟩
    · exact .inl ⟨function, rfl⟩
    · exact .inr ⟨callee, args, pos, rfl⟩
  · rintro (⟨function, rfl⟩ | ⟨callee, args, pos, rfl⟩)
    · exact ⟨_, .name function⟩
    · exact ⟨_, .call callee args pos⟩

/-- The target of an expression is the one that it writes. -/
theorem Target.ofExpr?_eq_some_iff {expr : Expr} {target : Target} :
    Target.ofExpr? expr = some target ↔ expr.Writes target := by
  constructor
  · intro read
    unfold Target.ofExpr? at read
    split at read <;> cases read
    case h_1 name => exact .name name
    case h_2 object field pos => exact .member object field pos
    case h_3 object args pos => exact .cellIndex object args pos
    case h_4 object args pos => exact .flatten object args pos
    case h_5 callee args pos => exact .call callee args pos
  · rintro (_ | _ | _ | _ | _) <;> rfl

/-- An expression has no target exactly when it cannot be assigned to. -/
theorem Target.ofExpr?_eq_none_iff {expr : Expr} :
    Target.ofExpr? expr = none ↔ ¬expr.Assignable := by
  simp [Expr.Assignable, ← Target.ofExpr?_eq_some_iff, Option.eq_none_iff_forall_ne_some]

/-- Every element of a row can be assigned to exactly when the row writes some targets. -/
theorem Expr.exists_writes_iff {row : List Expr} :
    (∃ targets, List.Forall₂ Expr.Writes row targets) ↔ ∀ expr ∈ row, expr.Assignable := by
  induction row with
  | nil => simp
  | cons expr row ih =>
    simp only [List.forall_mem_cons, ← ih, List.forall₂_cons_left_iff]
    constructor
    · rintro ⟨_, target, targets, first, later, rfl⟩
      exact ⟨⟨target, first⟩, targets, later⟩
    · rintro ⟨⟨target, first⟩, targets, later⟩
      exact ⟨_, target, targets, first, later, rfl⟩

/-- Every target of a row is written by one of its elements. -/
theorem Expr.exists_writes_of_mem {row : List Expr} {targets : List Target} {target : Target}
    (writes : List.Forall₂ Expr.Writes row targets) (inside : target ∈ targets) :
    ∃ expr ∈ row, expr.Writes target := by
  induction writes with
  | nil => cases inside
  | @cons expr _ row _ first _ ih =>
    obtain rfl | later := List.mem_cons.mp inside
    · exact ⟨expr, List.mem_cons_self, first⟩
    · obtain ⟨other, member, written⟩ := ih later
      exact ⟨other, List.mem_cons_of_mem expr member, written⟩

namespace Assignment

variable {expr left value : Expr} {row : List Expr} {outputs : List Target} {failure : Failure}
  {pos : Position}

/-- An expression is accepted as a target exactly as the one it writes. -/
theorem target_eq_ok_iff {written : Target} : target expr = .ok written ↔ expr.Writes written := by
  rw [← Target.ofExpr?_eq_some_iff, target]
  cases Target.ofExpr? expr <;> simp

/-- An expression is refused as a target exactly when nothing can be assigned to it. -/
theorem target_eq_error_iff :
    target expr = .error failure ↔
      ¬expr.Assignable ∧ failure = .invalidTarget .notAssignable expr.pos := by
  rw [← Target.ofExpr?_eq_none_iff, target]
  cases Target.ofExpr? expr <;> simp [eq_comm]

/-- The targets of a row are those of its elements, in order. -/
theorem targets_eq_ok_iff : targets row = .ok outputs ↔ List.Forall₂ Expr.Writes row outputs := by
  induction row generalizing outputs with
  | nil => simp [targets, eq_comm]
  | cons expr row ih =>
    rw [targets, List.forall₂_cons_left_iff]
    cases first : target expr with
    | error failure =>
      have unwritable : ¬expr.Assignable := (target_eq_error_iff.mp first).1
      simp only [reduceCtorEq, false_iff, not_exists, not_and]
      exact fun written _ writes => absurd ⟨written, writes⟩ unwritable
    | ok written =>
      have only (other : Target) : expr.Writes other ↔ other = written := by
        rw [← target_eq_ok_iff, first, Except.ok.injEq, eq_comm]
      simp only [only, ← ih]
      cases targets row <;> simp [eq_comm]

/-- A row is refused at its first element that cannot be assigned to. -/
theorem targets_eq_error_iff :
    targets row = .error failure ↔
      ∃ front bad back, row = front ++ bad :: back ∧ (∀ expr ∈ front, expr.Assignable) ∧
        ¬bad.Assignable ∧ failure = .invalidTarget .notAssignable bad.pos := by
  induction row with
  | nil => simp [targets]
  | cons expr row ih =>
    rw [targets]
    cases first : target expr with
    | error other =>
      obtain ⟨unwritable, rfl⟩ := target_eq_error_iff.mp first
      constructor
      · intro refused
        exact ⟨[], expr, row, rfl, by simp, unwritable, (Except.error.inj refused).symm⟩
      · rintro ⟨_ | ⟨head, front⟩, bad, back, cut, writable, -, rfl⟩
        · obtain ⟨rfl, -⟩ := List.cons.inj cut
          rfl
        · obtain ⟨rfl, -⟩ := List.cons.inj cut
          exact absurd (writable _ List.mem_cons_self) unwritable
    | ok written =>
      have writable : expr.Assignable := ⟨written, target_eq_ok_iff.mp first⟩
      have behind : (targets row = .error failure) ↔
          (∃ front bad back, expr :: row = front ++ bad :: back ∧
            (∀ expr ∈ front, expr.Assignable) ∧ ¬bad.Assignable ∧
            failure = .invalidTarget .notAssignable bad.pos) := by
        rw [ih]
        constructor
        · rintro ⟨front, bad, back, rfl, all, refused⟩
          exact ⟨expr :: front, bad, back, rfl, List.forall_mem_cons.mpr ⟨writable, all⟩, refused⟩
        · rintro ⟨_ | ⟨head, front⟩, bad, back, cut, all, refused⟩
          · obtain ⟨rfl, -⟩ := List.cons.inj cut
            exact absurd writable refused.1
          · obtain ⟨rfl, rfl⟩ := List.cons.inj cut
            exact ⟨front, bad, back, rfl, (List.forall_mem_cons.mp all).2, refused⟩
      rw [← behind]
      cases targets row <;> simp

/-- A value is given targets exactly as the call it gives with them. -/
theorem callWith_eq_ok_iff {call : Call} :
    callWith outputs value = .ok call ↔ value.Gives outputs call := by
  constructor
  · intro called
    unfold callWith at called
    split at called <;> cases called
    case h_1 function => exact .name function
    case h_2 callee args pos => exact .call callee args pos
  · rintro (_ | _) <;> rfl

/-- A value is refused targets exactly when it is no call. -/
theorem callWith_eq_error_iff :
    callWith outputs value = .error failure ↔
      ¬value.Callable ∧ failure = .invalidTarget .valueNotACall value.pos := by
  constructor
  · intro refused
    refine ⟨fun callable => ?_, invalidTarget_of_callWith refused⟩
    obtain ⟨call, gives⟩ := (Expr.exists_gives_iff outputs).mpr callable
    rw [callWith_eq_ok_iff.mpr gives] at refused
    cases refused
  · rintro ⟨uncallable, rfl⟩
    cases called : callWith outputs value with
    | ok call =>
      have gives : value.Gives outputs call := callWith_eq_ok_iff.mp called
      exact absurd ((Expr.exists_gives_iff outputs).mp ⟨call, gives⟩) uncallable
    | error other => rw [invalidTarget_of_callWith called]

/-- The statement that an assignment at a position comes to. -/
inductive Makes (pos : Position) : Expr → Expr → Stmt → Prop where
  | one {left value : Expr} {target : Target} :
    left.Writes target → Makes pos left value (.assign target value pos)
  /-- The targets in a matrix are the outputs of a call. -/
  | several {row : List Expr} {targets : List Target} {value : Expr} {call : Call}
      {start : Position} :
    row ≠ [] → List.Forall₂ Expr.Writes row targets → value.Gives targets call →
      Makes pos (.matrix [row] start) value (.call call)

/-- The failure of an assignment that is not made. -/
inductive Refuses : Expr → Expr → Failure → Prop where
  | left {left value : Expr} :
    (∀ rows start, left ≠ .matrix rows start) → ¬left.Assignable →
      Refuses left value (.invalidTarget .notAssignable left.pos)
  | rows {rows : List (List Expr)} {start : Position} {value : Expr} :
    (∀ row, rows = [row] → row = []) →
      Refuses (.matrix rows start) value (.invalidTarget .targetsNotARow start)
  | element {front back : List Expr} {bad value : Expr} {start : Position} :
    (∀ expr ∈ front, expr.Assignable) → ¬bad.Assignable →
      Refuses (.matrix [front ++ bad :: back] start) value
        (.invalidTarget .notAssignable bad.pos)
  | value {row : List Expr} {start : Position} {value : Expr} :
    row ≠ [] → (∀ expr ∈ row, expr.Assignable) → ¬value.Callable →
      Refuses (.matrix [row] start) value (.invalidTarget .valueNotACall value.pos)

/-- The assignment of a value to a row that is not empty. -/
theorem statement_of_row (filled : row ≠ []) (start : Position) :
    statement (.matrix [row] start) value pos =
      match targets row with
      | .error failure => .error failure
      | .ok outputs =>
        match callWith outputs value with
        | .error failure => .error failure
        | .ok call => .ok (.call call) := by
  obtain ⟨first, more, rfl⟩ := List.exists_cons_of_ne_nil filled
  simp only [statement, multiple]
  cases targets (first :: more) <;> rfl

/-- The assignment of a value to rows of any other shape. -/
theorem statement_of_rows {rows : List (List Expr)} (shape : ∀ row, rows = [row] → row = [])
    (start : Position) :
    statement (.matrix rows start) value pos = .error (.invalidTarget .targetsNotARow start) := by
  match rows with
  | [] | [[]] | [] :: _ :: _ | (_ :: _) :: _ :: _ => rfl
  | [first :: more] => cases shape _ rfl

/-- What is on the left of an assignment: no matrix, a row that is not empty, or other rows. -/
theorem left_cases (left : Expr) :
    (∀ rows start, left ≠ .matrix rows start) ∨
      (∃ row start, left = .matrix [row] start ∧ row ≠ []) ∨
      ∃ rows start, left = .matrix rows start ∧ ∀ row, rows = [row] → row = [] := by
  by_cases matrix : ∃ rows start, left = .matrix rows start
  · obtain ⟨rows, start, rfl⟩ := matrix
    by_cases shape : ∀ row, rows = [row] → row = []
    · exact .inr (.inr ⟨rows, start, rfl, shape⟩)
    · simp only [not_forall] at shape
      obtain ⟨row, rfl, filled⟩ := shape
      exact .inr (.inl ⟨row, start, rfl, filled⟩)
  · exact .inl fun rows start same => matrix ⟨rows, start, same⟩

/-- An assignment comes to exactly the statement that it makes. -/
theorem statement_eq_ok_iff {made : Stmt} :
    statement left value pos = .ok made ↔ Makes pos left value made := by
  constructor
  · intro run
    obtain other | ⟨row, start, rfl, filled⟩ | ⟨rows, start, rfl, shape⟩ := left_cases left
    · rw [statement_of_ne value pos other] at run
      cases read : target left with
      | error failure => simp [read] at run
      | ok written =>
        obtain rfl : Stmt.assign written value pos = made := by simpa [read] using run
        exact .one (target_eq_ok_iff.mp read)
    · rw [statement_of_row filled] at run
      cases read : targets row with
      | error failure => simp [read] at run
      | ok outputs =>
        cases called : callWith outputs value with
        | error failure => simp [read, called] at run
        | ok call =>
          obtain rfl : Stmt.call call = made := by simpa [read, called] using run
          exact .several filled (targets_eq_ok_iff.mp read) (callWith_eq_ok_iff.mp called)
    · rw [statement_of_rows shape] at run
      cases run
  · intro makes
    cases makes with
    | one writes =>
      have other : ∀ rows start, left ≠ .matrix rows start := by
        rintro rows start rfl
        cases writes
      rw [statement_of_ne value pos other, target_eq_ok_iff.mpr writes]
    | several filled writes gives =>
      rw [statement_of_row filled, targets_eq_ok_iff.mpr writes]
      simp only [callWith_eq_ok_iff.mpr gives]

/-- An assignment fails exactly with the failure for which it is refused. -/
theorem statement_eq_error_iff :
    statement left value pos = .error failure ↔ Refuses left value failure := by
  constructor
  · intro run
    obtain other | ⟨row, start, rfl, filled⟩ | ⟨rows, start, rfl, shape⟩ := left_cases left
    · rw [statement_of_ne value pos other] at run
      cases read : target left with
      | ok written => simp [read] at run
      | error found =>
        obtain ⟨unwritable, rfl⟩ := target_eq_error_iff.mp read
        obtain rfl := (by simpa [read] using run : _ = failure)
        exact .left other unwritable
    · rw [statement_of_row filled] at run
      cases read : targets row with
      | error found =>
        obtain rfl : found = failure := by simpa [read] using run
        obtain ⟨front, bad, back, rfl, writable, unwritable, rfl⟩ := targets_eq_error_iff.mp read
        exact .element writable unwritable
      | ok outputs =>
        have writable := Expr.exists_writes_iff.mp ⟨outputs, targets_eq_ok_iff.mp read⟩
        cases called : callWith outputs value with
        | ok call => simp [read, called] at run
        | error found =>
          obtain rfl : found = failure := by simpa [read, called] using run
          obtain ⟨uncallable, rfl⟩ := callWith_eq_error_iff.mp called
          exact .value filled writable uncallable
    · rw [statement_of_rows shape] at run
      obtain rfl := Except.error.inj run
      exact .rows shape
  · intro refuses
    cases refuses with
    | left other unwritable =>
      rw [statement_of_ne value pos other, target_eq_error_iff.mpr ⟨unwritable, rfl⟩]
    | rows shape => exact statement_of_rows shape _
    | element writable unwritable =>
      rw [statement_of_row (by simp), targets_eq_error_iff.mpr
        ⟨_, _, _, rfl, writable, unwritable, rfl⟩]
    | value filled writable uncallable =>
      obtain ⟨outputs, writes⟩ := Expr.exists_writes_iff.mpr writable
      rw [statement_of_row filled, targets_eq_ok_iff.mpr writes]
      simp only [callWith_eq_error_iff.mpr ⟨uncallable, rfl⟩]

/-- An assignment to a matrix is made exactly when the matrix is one row, not empty, of what can be
assigned to, and the value can give outputs; any other assignment is made exactly when its left side
can be assigned to. What is made keeps the parts of both sides, and what is refused is refused for
the first of its flaws. -/
theorem statement_exact (left value : Expr) (pos : Position) :
    (∀ rows start, left = .matrix rows start →
      ((∃ made, statement left value pos = .ok made) ↔
        ∃ row, rows = [row] ∧ row ≠ [] ∧ (∀ element ∈ row, element.Assignable) ∧
          value.Callable)) ∧
    ((∀ rows start, left ≠ .matrix rows start) →
      ((∃ made, statement left value pos = .ok made) ↔ left.Assignable)) ∧
    (∀ made, statement left value pos = .ok made ↔ Makes pos left value made) ∧
    ∀ failure, statement left value pos = .error failure ↔ Refuses left value failure := by
  refine ⟨?_, ?_, fun _ => statement_eq_ok_iff, fun _ => statement_eq_error_iff⟩
  · rintro rows start rfl
    simp only [statement_eq_ok_iff]
    constructor
    · rintro ⟨_, one | ⟨filled, writes, gives⟩⟩
      · cases one
      · exact ⟨_, rfl, filled, Expr.exists_writes_iff.mp ⟨_, writes⟩,
          (Expr.exists_gives_iff _).mp ⟨_, gives⟩⟩
    · rintro ⟨row, rfl, filled, writable, callable⟩
      obtain ⟨outputs, writes⟩ := Expr.exists_writes_iff.mpr writable
      obtain ⟨call, gives⟩ := (Expr.exists_gives_iff outputs).mpr callable
      exact ⟨_, .several filled writes gives⟩
  · intro other
    simp only [statement_eq_ok_iff]
    constructor
    · rintro ⟨_, writes | ⟨_, _, _⟩⟩
      · exact ⟨_, writes⟩
      · exact absurd rfl (other _ _)
    · rintro ⟨target, writes⟩
      exact ⟨_, .one writes⟩

end Assignment

end MatlabFront
