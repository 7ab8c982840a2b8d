import MatlabFront.Proofs.Expression.Context

/-!
# Where an expression stops

An expression is a function of the tokens that it is read from: it ends in one place, with one tree.
Outside of all brackets no operator stands there. No expression goes over the keyword of an `if`, so
whatever stands behind such a keyword has no part in the expressions in front of it.
-/

namespace MatlabFront

namespace State

variable {s : State} {keyword token : Token} {tail : List Token}

/-- A token that is still ahead is ahead behind every token of another kind. -/
theorem ahead_next (ahead : keyword :: tail <:+ s.rest) (known : s.peek = some token)
    (differs : token.kind ≠ keyword.kind) : keyword :: tail <:+ s.next.rest := by
  rw [rest_of_peek known, List.suffix_cons_iff] at ahead
  obtain same | behind := ahead
  · obtain ⟨rfl, -⟩ := List.cons.inj same
    exact absurd rfl differs
  · exact behind

/-- A token of another kind is gone over in front of the keyword. -/
theorem ahead_next_of_peekKind {kind : Kind} (ahead : keyword :: tail <:+ s.rest)
    (known : s.peekKind = some kind) (differs : kind ≠ keyword.kind) :
    keyword :: tail <:+ s.next.rest := by
  obtain ⟨token, here, rfl⟩ := peek_of_peekKind known
  exact ahead_next ahead here differs

/-- What is skipped does not reach a token that is not skipped. -/
theorem ahead_skip {test : Kind → Bool} (ahead : keyword :: tail <:+ s.rest)
    (stops : test keyword.kind = false) : keyword :: tail <:+ (s.skip test).rest := by
  obtain ⟨left, whole⟩ := ahead
  have here : (keyword :: tail).dropWhile (test ·.kind) = keyword :: tail := by simp [stops]
  change keyword :: tail <:+ s.rest.dropWhile (test ·.kind)
  rw [← whole, List.dropWhile_append, here]
  split
  · exact List.suffix_refl _
  · exact List.suffix_append _ _

/-- The token of a parameter is no keyword. -/
theorem ahead_next_of_param {param : Param} (ahead : keyword :: tail <:+ s.rest)
    (opens : keyword.kind = .ifKeyword) (declares : s.param? = some param) :
    keyword :: tail <:+ s.next.rest := by
  obtain ⟨token, known, kinds⟩ := token_of_param declares
  refine ahead_next ahead known fun same => ?_
  simp [same, opens] at kinds

end State

namespace Grammar

variable {phrase : Phrase} {s final other : State}

/-- An expression stops in front of an operator that is too weak, or of a new element. -/
theorem Reads.stops {nesting : Nesting} {power : Nat} {left whole : Expr}
    (reads : Reads (.operators nesting power left whole) s final) : final.Stops nesting power := by
  generalize same : Phrase.operators nesting power left whole = phrase at reads
  induction reads generalizing left with
  | stop stops =>
    cases same
    exact stops
  | postfixed _ _ _ _ _ _ _ later | infixed _ _ _ _ _ _ _ later =>
    cases same
    exact later rfl
  | _ => cases same

/-- Outside of all brackets no operator stands behind an expression. -/
theorem Reads.operatorless {whole : Expr}
    (reads : Reads (.expression .outside 0 whole) s final) : Operatorless final.rest := by
  intro token known
  cases reads with
  | expression _ operators =>
    cases entry : token.kind.leftPower? with
    | none => rfl
    | some power =>
      obtain gap | weaker := operators.stops token known
      · cases gap
      · exact absurd (weaker power entry) (Nat.not_lt_zero power)

/-- What is read as an expression is read as no other. -/
theorem Reads.unique {nesting : Nesting} {power : Nat} {whole different : Expr}
    (reads : Reads (.expression nesting power whole) s final)
    (again : Reads (.expression nesting power different) s other) :
    different = whole ∧ other = final := by
  have enough (expr : Expr) (behind : State) :
      (Phrase.expression nesting power expr).Fits s behind (8 * s.rest.length + 1) := by
    rw [Phrase.Fits, Phrase.level]
    omega
  have one : Parser.expression _ nesting power s = .done whole final :=
    reads.accepted (enough whole final)
  have another : Parser.expression _ nesting power s = .done different other :=
    again.accepted (enough different other)
  obtain ⟨rfl, rfl⟩ := Outcome.done.inj (one.symm.trans another)
  exact ⟨rfl, rfl⟩

/-- No phrase takes the keyword of an `if`. -/
theorem Reads.ahead {keyword : Token} {tail : List Token} (reads : Reads phrase s final)
    (opens : keyword.kind = .ifKeyword) :
    phrase.Proper → keyword :: tail <:+ s.rest → keyword :: tail <:+ final.rest := by
  induction reads with
  | stop => exact fun _ ahead => ahead
  | expression _ _ head later | postfixed _ _ _ _ _ _ head later | lambda _ _ _ head later =>
    exact fun _ ahead => later trivial (head trivial ahead)
  | infixed known _ entry _ _ _ head later =>
    intro _ ahead
    refine later trivial (head trivial (State.ahead_next ahead known fun same => ?_))
    rw [same, opens] at entry
    cases entry
  | ident known kind =>
    intro _ ahead
    rw [State.note_rest]
    exact State.ahead_next ahead known (by simp [kind, opens])
  | number known kind | string known kind | lastIndex known kind | colon known kind
  | ignored known kind | named known kind =>
    exact fun _ ahead => State.ahead_next ahead known (by simp [kind, opens])
  | unary known entry _ _ head =>
    intro _ ahead
    refine head trivial (State.ahead_next ahead known fun same => ?_)
    rw [same, opens] at entry
    cases entry
  | atSign known kind _ head =>
    exact fun _ ahead => head trivial (State.ahead_next ahead known (by simp [kind, opens]))
  | matrix known kind _ head | cell known kind _ head | call known kind _ head
  | cellIndex known kind _ head =>
    exact fun _ ahead => head rfl (State.ahead_next ahead known (by simp [kind, opens]))
  | parens known kind _ closes head =>
    intro _ ahead
    have inside := head trivial (State.ahead_next ahead known (by simp [kind, opens]))
    exact State.ahead_next_of_peekKind inside closes (by simp [opens])
  | close known | noArguments known =>
    intro proper ahead
    refine State.ahead_next_of_peekKind ahead known fun same => ?_
    simp only [Phrase.Proper, same, opens] at proper
    cases proper
  | rowEnd known _ breaks _ head =>
    intro proper ahead
    refine head proper (State.ahead_next_of_peekKind ahead known fun same => ?_)
    simp [same, opens] at breaks
  | comma known _ _ head =>
    exact fun proper ahead =>
      head proper (State.ahead_next_of_peekKind ahead known (by simp [opens]))
  | element _ _ _ _ _ head later => exact fun proper ahead => later proper (head trivial ahead)
  | member known kind named name =>
    intro _ ahead
    have dot := State.ahead_next ahead known (by simp [kind, opens])
    exact State.ahead_next dot named (by simp [name, opens])
  | dynamic known kind bracket _ closes head =>
    intro _ ahead
    have dot := State.ahead_next ahead known (by simp [kind, opens])
    have inside := head trivial (State.ahead_next_of_peekKind dot bracket (by simp [opens]))
    exact State.ahead_next_of_peekKind inside closes (by simp [opens])
  | transpose => exact fun _ ahead => State.ahead_skip ahead (by rw [opens]; rfl)
  | arguments _ _ head => exact head
  | argument _ more _ head later =>
    intro proper ahead
    have first := head trivial ahead
    exact later proper (State.ahead_next_of_peekKind first more (by simp [opens]))
  | lastArgument _ closes _ head =>
    intro proper ahead
    refine State.ahead_next_of_peekKind (head trivial ahead) closes fun same => ?_
    simp only [Phrase.Proper, same, opens] at proper
    cases proper
  | noParameters bracket closes =>
    intro _ ahead
    have inside := State.ahead_next_of_peekKind ahead bracket (by simp [opens])
    exact State.ahead_next_of_peekKind inside closes (by simp [opens])
  | parameters bracket _ _ head =>
    exact fun _ ahead =>
      head trivial (State.ahead_next_of_peekKind ahead bracket (by simp [opens]))
  | parameter declares more _ head =>
    intro _ ahead
    have param := State.ahead_next_of_param ahead opens declares
    exact head trivial (State.ahead_next_of_peekKind param more (by simp [opens]))
  | lastParameter declares closes =>
    intro _ ahead
    have param := State.ahead_next_of_param ahead opens declares
    exact State.ahead_next_of_peekKind param closes (by simp [opens])

end Grammar

end MatlabFront
