import MatlabFront.Proofs.Program.Slot

/-!
# The heads of functions that are laid out

The outputs of a function stand in front of its name and its parameters behind it. They are read
from their tokens, none of which is an error.
-/

namespace MatlabFront.Surface

variable {s : State} {run gap rest tokens : List Token}

/-- No token of parameters that are laid out is an error. -/
theorem ParametersLaid.clean {params : List Param} (laid : ParametersLaid params tokens) :
    Clean tokens := by
  induction laid with
  | one declares => cases declares <;> simp [*]
  | cons declares comma _ ih => cases declares <;> simp [*]

/-- No token behind the name of a function that is laid out is an error. -/
theorem InputsLaid.clean {params : List Param} (laid : InputsLaid params tokens) :
    Clean tokens := by
  cases laid with
  | none => exact clean_nil
  | empty opens closes => simp [opens, closes]
  | list opens params closes => simp [opens, params.clean, closes]

/-- No token in front of the name of a function that is laid out is an error. -/
theorem OutputsLaid.clean {outputs : List Ident} (laid : OutputsLaid outputs tokens) :
    Clean tokens := by
  cases laid with
  | none => exact clean_nil
  | single name sign => simp [name, sign]
  | @bracketed _ _ _ run opens names closes sign =>
    have clean : Clean run := by
      intro token inside error
      have name := names token inside
      simp [error] at name
    simp [opens, clean, closes, sign]

/-- A parameter is known from the next token. -/
theorem Declares.param {token : Token} {param : Param} (declares : Declares token param)
    (known : s.peek = some token) : s.param? = some param := by
  cases declares with
  | name kind | ignored kind => simp [State.param?, known, kind]

/-- Names in brackets are read with the commas among them. -/
theorem bracketedOutputs_read {closing : Token}
    (names : ∀ token ∈ run, token.kind = .ident ∨ token.kind = .comma)
    (closes : closing.kind = .rightBracket) (known : s.rest = run ++ closing :: rest) :
    ∃ final, BracketedOutputs ((run.filter (·.kind == .ident)).map Parser.declared) s final ∧
      final.rest = rest := by
  induction run generalizing s with
  | nil =>
    obtain ⟨here, next⟩ := State.peek_of_rest known
    exact ⟨s.next, .close (closes ▸ State.peekKind_of_peek here), next⟩
  | cons token run ih =>
    obtain ⟨here, next⟩ := State.peek_of_rest known
    obtain ⟨final, reads, left⟩ :=
      ih (fun other inside => names other (List.mem_cons_of_mem _ inside)) next
    refine ⟨final, ?_, left⟩
    obtain word | comma := names token List.mem_cons_self
    · simpa [word] using BracketedOutputs.name here word reads
    · simpa [comma] using BracketedOutputs.comma (comma ▸ State.peekKind_of_peek here) reads

/-- The outputs of a function are read in front of a name that no equals sign follows. -/
theorem OutputsLaid.read {outputs : List Ident} {name : Token} (laid : OutputsLaid outputs run)
    (word : name.kind = .ident) (behind : ∀ token ∈ rest.head?, token.kind ≠ .assign)
    (known : s.rest = run ++ name :: rest) :
    ∃ final, Outputs outputs s final ∧ final.rest = name :: rest := by
  cases laid with
  | none =>
    obtain ⟨here, next⟩ := State.peek_of_rest known
    have kind : s.peekKind = some .ident := word ▸ State.peekKind_of_peek here
    refine ⟨s, .none (by simp [kind]) (fun assigned => ?_), known⟩
    have second : s.next.peekKind = some .assign := assigned.2
    obtain ⟨sign, there, assign⟩ := State.peek_of_peekKind second
    have head : rest.head? = some sign := next ▸ there
    exact behind sign head assign
  | @single first sign kind assigned =>
    obtain ⟨here, next⟩ := State.peek_of_rest known
    obtain ⟨there, later⟩ := State.peek_of_rest next
    have second : s.secondKind = some .assign := assigned ▸ State.peekKind_of_peek there
    exact ⟨s.next.next, .single here kind second, later⟩
  | @bracketed opening closing sign run opens names closes assigned =>
    have known : s.rest = opening :: (run ++ closing :: sign :: name :: rest) := by
      simpa using known
    obtain ⟨here, next⟩ := State.peek_of_rest known
    obtain ⟨s₁, reads, left⟩ := bracketedOutputs_read names closes next
    obtain ⟨there, later⟩ := State.peek_of_rest left
    exact ⟨s₁.next, .bracketed (opens ▸ State.peekKind_of_peek here) reads
      (assigned ▸ State.peekKind_of_peek there), later⟩

/-- Parameters that are laid out are read in front of a closing parenthesis. -/
theorem ParametersLaid.read {params : List Param} {closing : Token}
    (laid : ParametersLaid params run) (closes : closing.kind = .rightParen)
    (known : s.rest = run ++ closing :: rest) :
    ∃ final, Grammar.Reads (.parametersFrom params) s final ∧ final.rest = rest := by
  induction laid generalizing s with
  | one declares =>
    obtain ⟨here, next⟩ := State.peek_of_rest known
    obtain ⟨there, later⟩ := State.peek_of_rest next
    exact ⟨s.next.next, .lastParameter (declares.param here)
      (closes ▸ State.peekKind_of_peek there), later⟩
  | cons declares comma _ ih =>
    obtain ⟨here, next⟩ := State.peek_of_rest known
    obtain ⟨there, later⟩ := State.peek_of_rest next
    obtain ⟨final, reads, left⟩ := ih later
    exact ⟨final, .parameter (declares.param here) (comma ▸ State.peekKind_of_peek there) reads,
      left⟩

/-- The list of parameters begins with a name or a tilde. -/
theorem ParametersLaid.begins {params : List Param} (laid : ParametersLaid params run) :
    ∃ first later, run = first :: later ∧ (first.kind = .ident ∨ first.kind = .tilde) := by
  cases laid with
  | one declares | cons declares =>
    refine ⟨_, _, rfl, ?_⟩
    cases declares with
    | name kind => exact .inl kind
    | ignored kind => exact .inr kind

/-- The parameters of a function are read in front of a gap. -/
theorem InputsLaid.read {params : List Param} (laid : InputsLaid params run) (filled : Gap gap)
    (known : s.rest = run ++ (gap ++ rest)) :
    ∃ final, Parameters params s final ∧ final.rest = gap ++ rest := by
  cases laid with
  | none =>
    refine ⟨s, .none (fun opens => ?_), known⟩
    have separates := filled.atSeparator known
    rw [State.atSeparator, opens] at separates
    cases separates
  | empty opens closes =>
    obtain ⟨here, next⟩ := State.peek_of_rest known
    obtain ⟨there, later⟩ := State.peek_of_rest next
    have opened := opens ▸ State.peekKind_of_peek here
    exact ⟨s.next.next, .list opened (.noParameters opened (closes ▸ State.peekKind_of_peek there)),
      later⟩
  | @list opening closing _ run opens inner closes =>
    have known : s.rest = opening :: (run ++ closing :: (gap ++ rest)) := by simpa using known
    obtain ⟨here, next⟩ := State.peek_of_rest known
    obtain ⟨final, reads, left⟩ := inner.read closes next
    obtain ⟨first, later, rfl, kind⟩ := inner.begins
    obtain ⟨there, -⟩ := State.peek_of_rest next
    have opened := opens ▸ State.peekKind_of_peek here
    refine ⟨final, .list opened (.parameters opened ?_ reads), left⟩
    rw [State.peekKind_of_peek there]
    obtain word | tilde := kind
    · simp [word]
    · simp [tilde]

/-- What stands behind the name of a function does not begin with an equals sign. -/
theorem InputsLaid.no_assign {params : List Param} (laid : InputsLaid params run)
    (filled : Gap gap) : ∀ token ∈ (run ++ (gap ++ rest)).head?, token.kind ≠ .assign := by
  cases laid with
  | none =>
    obtain ⟨first, more, rfl⟩ := List.exists_cons_of_ne_nil filled.nonempty
    rintro _ ⟨⟩ assigned
    have separates := filled.separators first List.mem_cons_self
    rw [assigned] at separates
    cases separates
  | empty opens | list opens =>
    rintro _ ⟨⟩ assigned
    rw [assigned] at opens
    cases opens

/-- The head of a function is read in front of a gap. -/
theorem head_read {outputs : List Ident} {params : List Param} {name : Token} {pos : Position}
    {front behind : List Token} (declares : OutputsLaid outputs front) (word : name.kind = .ident)
    (takes : InputsLaid params behind) (filled : Gap gap)
    (known : s.rest = front ++ name :: (behind ++ (gap ++ rest))) :
    ∃ final, Head pos ⟨Parser.declared name, params, outputs, false, pos⟩ s final ∧
      final.rest = gap ++ rest := by
  obtain ⟨s₁, outputsReads, left⟩ := declares.read word (takes.no_assign filled) known
  obtain ⟨here, next⟩ := State.peek_of_rest left
  obtain ⟨final, paramsReads, later⟩ := takes.read filled next
  exact ⟨final, .mk outputsReads here word paramsReads, later⟩

end MatlabFront.Surface
