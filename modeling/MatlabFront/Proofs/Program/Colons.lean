import MatlabFront.Proofs.Expression.Colons
import MatlabFront.Proofs.Program.Demands

/-!
# Bare colons in accepted programs

Every bare colon in an accepted program ends an argument, the content of parentheses or the name of
a member. The targets of assignments, the comparisons of a switch and the calls with outputs leave
the colons where they are.
-/

namespace MatlabFront

namespace Expr

variable {expr : Expr} {pos : Position}

/-- A name holds no colon. -/
theorem colonsEnd_ident (name : Ident) : (ident name).ColonsEnd false := .atom rfl (by simp)

/-- The tree that writes the target of an expression has its colons where that has them. -/
theorem ColonsEnd.target {target : Target} (ends : expr.ColonsEnd false)
    (writes : expr.Writes target) : target.expr.ColonsEnd false := by
  cases writes with
  | name => exact ends
  | member | cellIndex =>
    cases ends with
    | node _ parts => exact .node (by simp [Target.expr]) parts
  | flatten | call =>
    cases ends with
    | node _ parts =>
      obtain ⟨callee, args⟩ := List.forall_mem_cons.mp parts
      refine ColonsEnd.apply callee fun arg inside => ?_
      exact args (.subscript, arg) (by simp [inside])

end Expr

/-- The demand that colons stand where a rule allows them, and that an expression of its own is one
only if that is allowed as well. -/
def Demands.colons (rule : Expr.Role → Bool → Bool) (allowed : Bool) : Demands where
  expr expr := expr.ColonsAt rule allowed
  call call := (Expr.call call).ColonsAt rule allowed
  names _ := True

/-- The colons in what is read end groups. -/
theorem Demands.kept_colons {origin : State} :
    (Demands.colons Expr.Role.endsGroup false).Kept origin where
  expr _ reads := Grammar.ColonsEndAt.closed reads.colonsEnd (by simp)
  comparison value subject := Expr.ColonsEnd.binary value subject
  target left writes := Expr.ColonsEnd.target left writes
  outputs {row _ targets _ _} left value _ writes gives := by
    have elements : ∀ expr ∈ row, expr.ColonsEnd false := by
      cases left with
      | node _ parts =>
        refine fun expr inside => parts (.inner, expr) (List.mem_map.mpr ⟨expr, ?_, rfl⟩)
        simpa using inside
    have several : ∀ target ∈ targets, target.expr.ColonsEnd false := by
      intro target inside
      obtain ⟨expr, member, written⟩ := Expr.exists_writes_of_mem writes inside
      exact (elements expr member).target written
    cases gives with
    | name => exact Expr.ColonsEnd.call value (by simp) several
    | call =>
      cases value with
      | node _ parts =>
        obtain ⟨callee, args⟩ := List.forall_mem_cons.mp parts
        refine Expr.ColonsEnd.call callee (fun arg inside => ?_) several
        exact args (.subscript, arg) (by simp [inside])
  command _ run := by
    obtain ⟨_, ⟨rfl⟩, command, -⟩ := Parser.command_done run
    cases command with
    | plain strings =>
      refine Expr.ColonsEnd.call (Expr.colonsEnd_ident _) (fun arg inside => ?_) (by simp)
      obtain ⟨value, pos, rfl⟩ := strings arg inside
      exact .atom rfl (by simp)
    | load =>
      refine Expr.ColonsEnd.call (Expr.colonsEnd_ident _) ?_ (List.forall_mem_map.mpr ?_)
      · exact List.forall_mem_singleton.mpr (.atom rfl (by simp))
      · exact fun name _ => Expr.colonsEnd_ident name
  names := trivial

/-- A colon that ends a group is a whole subscript when it stands apart. -/
theorem Demands.combine_apart :
    (Demands.colons Expr.Role.endsGroup false).Combine (.colons Expr.Role.isApart true)
      (.colons Expr.Role.isSubscript false) := by
  have rules (role : Expr.Role) (one more : Bool) : role.isSubscript (one && more) =
      (role.endsGroup one && role.isApart more) := by
    cases role <;> cases one <;> rfl
  exact ⟨fun ends apart => ends.and apart rules, fun ends apart => ends.and apart rules,
    fun _ _ => trivial⟩

/-- Whole subscripts stand apart. -/
theorem Demands.combine_subscript :
    (Demands.colons Expr.Role.isSubscript false).Combine (.colons Expr.Role.isSubscript false)
      (.colons Expr.Role.isApart true) := by
  have rules (role : Expr.Role) {one more : Bool} (_ : one ≤ more) :
      role.isSubscript one ≤ role.isApart more := by
    cases role with
    | subscript => exact Bool.le_refl true
    | enclosed | last | inner => exact Bool.false_le _
  exact ⟨fun whole _ => whole.mono (by decide) rules, fun whole _ => whole.mono (by decide) rules,
    fun _ _ => trivial⟩

/-- In an accepted program every bare colon ends an argument of a call or subscript, the content of
parentheses or the name of a member. It is no callee, object or element of a literal, no operand
with more of its expression behind it, and no expression of its own. So every colon is a whole
subscript exactly when none is all that stands in parentheses and none is the operand with which an
expression ends. -/
theorem Program.colons_of_accepted {dialect : Dialect} {tokens : List Token} {program : Program}
    (accepted : Program.ofTokens dialect tokens = some (.ok program)) :
    program.Meets (.colons Expr.Role.endsGroup false) ∧
      (program.Meets (.colons Expr.Role.isSubscript false) ↔
        program.Meets (.colons Expr.Role.isApart true)) := by
  have ends : program.Meets (.colons Expr.Role.endsGroup false) :=
    Program.meets_of_reads Demands.kept_colons accepted
  exact ⟨ends, fun whole => whole.and Demands.combine_subscript whole,
    fun apart => ends.and Demands.combine_apart apart⟩

/-- In `x = a(1+:)` the colon ends the argument, as the right operand of the sum. -/
theorem Program.colons_of_sum :
    (Program.mk [.assign (.var ⟨"x", ⟨1, 0⟩⟩)
      (.call (.mk (.ident ⟨"a", ⟨1, 4⟩⟩)
        [.binary (.number "1" ⟨1, 6⟩) .add (.colon ⟨1, 8⟩) ⟨1, 7⟩] none ⟨1, 4⟩)) ⟨1, 2⟩]).Meets
      (.colons Expr.Role.endsGroup false) := by
  have accepted : Program.ofTokens .strict
      [⟨.ident, "x", ⟨1, 0⟩⟩, ⟨.assign, "=", ⟨1, 2⟩⟩, ⟨.ident, "a", ⟨1, 4⟩⟩,
        ⟨.leftParen, "(", ⟨1, 5⟩⟩, ⟨.number, "1", ⟨1, 6⟩⟩, ⟨.plus, "+", ⟨1, 7⟩⟩,
        ⟨.colon, ":", ⟨1, 8⟩⟩, ⟨.rightParen, ")", ⟨1, 9⟩⟩] =
      some (.ok ⟨[.assign (.var ⟨"x", ⟨1, 0⟩⟩)
        (.call (.mk (.ident ⟨"a", ⟨1, 4⟩⟩)
          [.binary (.number "1" ⟨1, 6⟩) .add (.colon ⟨1, 8⟩) ⟨1, 7⟩] none ⟨1, 4⟩)) ⟨1, 2⟩]⟩) := by
    cbv
  exact (Program.colons_of_accepted accepted).1

/-- The colon of `x = (:)` is the content of parentheses and no subscript. -/
theorem Program.colons_of_parentheses :
    (∀ dialect, Program.ofTokens dialect (Token.ofText "x = (:)") =
      some (.ok ⟨[.assign (.var ⟨"x", ⟨1, 0⟩⟩) (.parens (.colon ⟨1, 5⟩) ⟨1, 4⟩) ⟨1, 2⟩]⟩)) ∧
      ¬(Program.mk [.assign (.var ⟨"x", ⟨1, 0⟩⟩) (.parens (.colon ⟨1, 5⟩) ⟨1, 4⟩)
        ⟨1, 2⟩]).Meets (.colons Expr.Role.isSubscript false) := by
  constructor
  · intro dialect
    cases dialect <;> cbv
  · intro meets
    obtain ⟨-, value⟩ := blockMeets_singleton.mp meets
    cases value with
    | node _ parts =>
      have inside : (Expr.colon ⟨1, 5⟩).ColonsAt Expr.Role.isSubscript false := parts _ (.head _)
      cases inside with
      | node other _ => exact other _ rfl

end MatlabFront
