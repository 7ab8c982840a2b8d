import MatlabFront.Proofs.Expression.Element
import MatlabFront.Proofs.Program.Spacing

/-!
# Elements that stand elsewhere

The tokens of an element may stand elsewhere, as long as the gaps between them that are seen in a literal
are the same. They are then an element again, and its tree is the same apart from positions.
-/

namespace MatlabFront

/-- Two runs have the same words, and the same gaps where they matter in a literal: this is so when the
runs are put between its brackets in some way. -/
def Respaced (form : LiteralForm) (run other : List Token) : Prop :=
  ∃ opening closing opening' closing' : Token, opening.kind = form.opening ∧
    closing.kind = form.closing ∧
      SameSpacing (opening :: (run ++ [closing])) (opening' :: (other ++ [closing']))

/-- Where one token of the whole is left, it is the last of the copy that is left. -/
theorem Copy.Carries.rest_of_single {copy : Copy} {s s' : State} {front : List Token}
    {last token : Token} (carries : copy.Carries s s') (single : s.rest = [token])
    (whole : copy.tokens.map (Token.relocate copy.move) = front ++ [last]) : s'.rest = [last] := by
  rw [← carries.whole, single, List.map_append, List.map_singleton] at whole
  have same : token.relocate copy.move = last := by
    simpa using congrArg List.getLast? whole
  rw [carries.rest, single, List.map_singleton, same]

/-- The last tokens of two lists with the same spacing are of the same kind. -/
theorem SameSpacing.kind_last {front front' : List Token} {last last' : Token}
    (same : SameSpacing (front ++ [last]) (front' ++ [last'])) : last'.kind = last.kind := by
  have words := congrArg List.getLast? same.words
  rw [List.map_append, List.map_append, List.map_singleton, List.map_singleton,
    List.getLast?_concat, List.getLast?_concat] at words
  exact congrArg Prod.fst (Option.some.inj words)

namespace Element

variable {form : LiteralForm} {run other : List Token} {element : Expr}

/-- An element is read between the brackets of its literal, with enough steps. -/
theorem between_brackets (whole : Element form run element) (settled : NoLastTilde run)
    (opening : Token) {closing : Token} (closes : closing.kind = form.closing) :
    ∃ steps final, Parser.expression steps .elements 0 ⟨[opening], run ++ [closing], none, []⟩ =
      .done element final ∧ final.rest = [closing] := by
  have plain : closing.kind.leftPower? = none :=
    leftPower?_of_closesBracket (closes ▸ form.closes)
  obtain ⟨final, reads, advances⟩ := (whole.read settled).2.2
    ⟨[opening], run ++ [closing], none, []⟩ [closing] rfl (by rintro _ ⟨⟩; exact .inl plain)
  refine ⟨_, final, reads.accepted (Nat.le_add_right _ _), advances.rest_eq rfl⟩

/-- A run with the same words and gaps is an element too, with the same tree apart from positions. Both
are read as copies of the run in which each token stands at its number. -/
theorem respaced (whole : Element form run element) (settled : NoLastTilde run)
    (same : Respaced form run other) :
    ∃ moved, moved.unplaced = element.unplaced ∧ Element form other moved := by
  obtain ⟨opening, closing, opening', closing', opens, closes, spacing⟩ := same
  obtain ⟨steps, final, accepted, left⟩ := whole.between_brackets settled opening closes
  obtain ⟨first, inner, numbers, kind⟩ : ∃ first inner,
      numbered (opening :: (run ++ [closing])) = first :: inner ∧ first.kind = form.opening := by
    rw [numbered, List.mapIdx_cons]
    exact ⟨_, _, rfl, opens⟩
  have inside : State.Inside ⟨[first], inner, none, []⟩ .elements := by
    intro _
    cases form <;> simp_all [InLiteral, bracketsBehind, Context.bracketsAfter, Kind.opensBracket,
      LiteralForm.opening]
  have carries {bracket : Token} {tokens : List Token}
      (same : SameSpacing (opening :: (run ++ [closing])) (bracket :: tokens)) :
      (Copy.mk (numbered (opening :: (run ++ [closing]))) (.placed (bracket :: tokens)) []).Carries
        ⟨[first], inner, none, []⟩ ⟨[bracket], tokens, none, []⟩ := by
    have placed := same.numbered_placed
    rw [numbers, List.map_cons, List.cons.injEq] at placed
    exact ⟨by simp [numbers], placed.2.symm, by simp [placed.1], rfl⟩
  have origin := (Copy.followsExpressions (SameSpacing.refl _).faithful (Nat.le_refl steps)
    (fun _ : True => rfl)).expression .elements 0 (carries (.refl _)) inside
  have target := (Copy.followsExpressions spacing.faithful (Nat.le_refl steps)
    (fun _ : True => rfl)).expression .elements 0 (carries spacing) inside
  rw [accepted] at origin
  generalize Parser.expression steps .elements 0 ⟨[first], inner, none, []⟩ = outline at origin target
  generalize ran : Parser.expression steps .elements 0 ⟨[opening'], _, none, []⟩ = outcome at target
  cases origin with
  | exhausted stops => cases stops trivial
  | @done outlined middle _ back =>
    cases target with
    | @done _ _ final' forth =>
      -- One token is left of the run, so one is left of the other, and it is the last.
      obtain ⟨last, rest⟩ : ∃ last, middle.rest = [last] := by
        have single := congrArg List.length (left.symm.trans back.rest)
        rw [List.length_map, List.length_singleton] at single
        exact List.length_eq_one_iff.mp single.symm
      have ends : final'.rest = [closing'] :=
        @Copy.Carries.rest_of_single _ _ _ (opening' :: other) _ _ forth rest spacing.numbered_placed
      have same : closing'.kind = closing.kind :=
        @SameSpacing.kind_last (opening :: run) (opening' :: other) _ _ spacing
      refine ⟨_, ?_, steps, _, final', closing', [], same.trans closes, rfl, ran, ends⟩
      rw [Expr.unplaced_relocate, Expr.unplaced_relocate]

end Element

end MatlabFront
