import MatlabFront.Proofs.Parser.Advance

/-!
# What is read wherever its tokens stand

Some tokens are read between two states. They are read in the same way in another place when the
places agree in front of them and behind them as far as that matters. What is read in parts in one
place is read in these parts in the other.
-/

namespace MatlabFront

/-- Behind the same run of tokens the same token was read last. -/
theorem State.Advances.head_consumed {s s' final final' : State} {run : List Token}
    (one : s.Advances run final) (other : s'.Advances run final')
    (same : run = [] → s.consumed.head? = s'.consumed.head?) :
    final.consumed.head? = final'.consumed.head? := by
  rw [one.consumed, other.consumed]
  cases run with
  | nil => exact same rfl
  | cons first run => simp [List.head?_append]

/-- A run between two states is not empty when fewer tokens are left behind it. -/
theorem State.Advances.ne_nil {s final : State} {run : List Token} (advances : s.Advances run final)
    (shorter : final.rest.length < s.rest.length) : run ≠ [] := by
  rintro rfl
  rw [advances.rest] at shorter
  exact absurd shorter (Nat.lt_irrefl _)

/-- Behind the same run the same token was read last, wherever the run stands, unless it is empty. -/
theorem State.Advances.same_last {s s' final final' : State} {run : List Token}
    (one : s.Advances run final) (other : s'.Advances run final')
    (shorter : final.rest.length < s.rest.length) :
    final.consumed.head? = final'.consumed.head? :=
  one.head_consumed other fun none => absurd none (one.ne_nil shorter)

/-- Behind the same token the same token was read last. -/
theorem State.head_consumed_next {s s' : State} {token : Token} (known : s.peek = some token)
    (here : s'.peek = some token) : s.next.consumed.head? = s'.next.consumed.head? := by
  rw [State.consumed_next known, State.consumed_next here]
  rfl

/-- Tokens without errors stand between two states. What is read from them is read in every other
place, as long as the other place agrees in front and behind. -/
def Moves (s final : State) (starts : State → Prop) (follows : List Token → Prop)
    (reads : State → State → Prop) : Prop :=
  ∃ run, s.Advances run final ∧ (∀ token ∈ run, token.kind ≠ .error) ∧
    ∀ s' other, s'.rest = run ++ other → starts s' → follows other →
      ∃ final', reads s' final' ∧ s'.Advances run final'

namespace Moves

variable {s middle final : State} {starts starts' : State → Prop}
  {follows follows' : List Token → Prop} {reads reads' : State → State → Prop} {token : Token}

/-- A token is read wherever it stands. -/
theorem single (known : s.peek = some token) (clean : token.kind ≠ .error) :
    Moves s s.next (fun _ => True) (fun _ => True)
      fun s' final' => s'.peek = some token ∧ final' = s'.next := by
  refine ⟨[token], .next known, by simpa using clean, fun s' other rest _ _ => ?_⟩
  obtain ⟨here, -⟩ := State.peek_of_rest rest
  exact ⟨s'.next, ⟨here, rfl⟩, .next here⟩

/-- What is read behind a token is read behind it in another place. -/
theorem cons (moves : Moves s.next final starts follows reads) (known : s.peek = some token)
    (clean : token.kind ≠ .error) :
    Moves s final (fun s' => s'.peek = some token → starts s'.next) follows
      fun s' final' => s'.peek = some token ∧ reads s'.next final' := by
  obtain ⟨run, advances, cleans, goes⟩ := moves
  refine ⟨token :: run, advances.cons known, List.forall_mem_cons.mpr ⟨clean, cleans⟩, ?_⟩
  intro s' other rest starting following
  obtain ⟨here, later⟩ := State.peek_of_rest rest
  obtain ⟨final', inner, moved⟩ := goes s'.next other later (starting here) following
  exact ⟨final', ⟨here, inner⟩, moved.cons here⟩

/-- What is read in front of a token is read in front of it in another place. -/
theorem concat (moves : Moves s final starts follows reads) (known : final.peek = some token)
    (clean : token.kind ≠ .error) (behind : ∀ other, follows (token :: other)) :
    Moves s final.next starts (fun _ => True) fun s' final' =>
      ∃ middle', reads s' middle' ∧ middle'.peek = some token ∧ final' = middle'.next := by
  obtain ⟨run, advances, cleans, goes⟩ := moves
  refine ⟨run ++ [token], advances.concat known,
    List.forall_mem_append.mpr ⟨cleans, List.forall_mem_singleton.mpr clean⟩, ?_⟩
  intro s' other rest starting _
  rw [List.append_assoc] at rest
  obtain ⟨middle', inner, moved⟩ := goes s' _ rest starting (behind other)
  have left : middle'.rest = token :: other := moved.rest_eq rest
  obtain ⟨here, -⟩ := State.peek_of_rest left
  exact ⟨middle'.next, ⟨middle', inner, here, rfl⟩, moved.concat here⟩

/-- What is read in two parts is read in these parts in another place. -/
theorem append (head : Moves s middle starts follows reads)
    (tail : Moves middle final starts' follows' reads')
    (between : ∀ s' middle' run, s.Advances run middle → s'.Advances run middle' → starts s' →
      starts' middle')
    (behind : ∀ run other, middle.Advances run final → follows' other → follows (run ++ other)) :
    Moves s final starts follows' fun s' final' =>
      ∃ middle', reads s' middle' ∧ reads' middle' final' := by
  obtain ⟨front, first, firstClean, firstGoes⟩ := head
  obtain ⟨back, second, secondClean, secondGoes⟩ := tail
  refine ⟨front ++ back, first.trans second,
    List.forall_mem_append.mpr ⟨firstClean, secondClean⟩, ?_⟩
  intro s' other rest starting following
  rw [List.append_assoc] at rest
  obtain ⟨middle', one, moved⟩ :=
    firstGoes s' _ rest starting (behind back other second following)
  obtain ⟨final', two, ends⟩ := secondGoes middle' other (moved.rest_eq rest)
    (between s' middle' front first moved starting) following
  exact ⟨final', ⟨middle', one, two⟩, moved.trans ends⟩

/-- The next token is the same in another place when a token is read. -/
theorem peek (moves : Moves s final starts follows reads)
    (shorter : final.rest.length < s.rest.length) :
    Moves s final starts follows fun s' final' => s'.peek = s.peek ∧ reads s' final' := by
  obtain ⟨run, advances, cleans, goes⟩ := moves
  refine ⟨run, advances, cleans, fun s' other rest starting following => ?_⟩
  obtain ⟨final', inner, moved⟩ := goes s' other rest starting following
  obtain ⟨first, later, rfl⟩ := List.exists_cons_of_ne_nil (advances.ne_nil shorter)
  obtain ⟨known, -⟩ := State.peek_of_rest advances.rest
  obtain ⟨here, -⟩ := State.peek_of_rest rest
  exact ⟨final', ⟨here.trans known.symm, inner⟩, moved⟩

/-- What follows from what is read is read as well. -/
theorem imp (moves : Moves s final starts follows reads) (front : ∀ s', starts' s' → starts s')
    (behind : ∀ other, follows' other → follows other)
    (whole : ∀ s' final', starts' s' → follows' final'.rest → reads s' final' → reads' s' final') :
    Moves s final starts' follows' reads' := by
  obtain ⟨run, advances, cleans, goes⟩ := moves
  refine ⟨run, advances, cleans, fun s' other rest starting following => ?_⟩
  obtain ⟨final', inner, moved⟩ := goes s' other rest (front s' starting) (behind other following)
  rw [← moved.rest_eq rest] at following
  exact ⟨final', whole s' final' starting following inner, moved⟩

/-- What is read anywhere is read under any conditions. -/
theorem anywhere (moves : Moves s final (fun _ => True) (fun _ => True) reads) :
    Moves s final starts follows reads :=
  moves.imp (fun _ _ => trivial) (fun _ _ => trivial) fun _ _ _ _ reads => reads

end Moves

end MatlabFront
