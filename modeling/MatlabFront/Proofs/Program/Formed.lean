import MatlabFront.Proofs.Expression.Formed
import MatlabFront.Proofs.Program.Demands

/-!
# The form of accepted programs

Every node in the tree of an accepted program has the form that later phases rely on, in its
statements and functions at any depth and in the targets of its assignments. A call that is a
statement may have outputs, and has at least one then; no other call has any.
-/

namespace MatlabFront

variable {marked : Prop}

/-- The tree that writes the target of a well-formed expression is well formed. -/
theorem Expr.WellFormed.target {expr : Expr} {target : Target} (formed : expr.WellFormed marked)
    (writes : expr.Writes target) : target.expr.WellFormed marked := by
  obtain ⟨here, parts⟩ := formed
  cases writes with
  | name | member | cellIndex => exact .node trivial parts
  | flatten | call =>
    refine WellFormed.apply (parts _ (.head _)) fun arg inside => parts _ ?_
    simp [Expr.parts, inside]

/-- The tree that writes the target of an expression encloses the same words `end`. -/
theorem Expr.EndsEnclosed.target {expr : Expr} {target : Target} (ends : expr.EndsEnclosed)
    (writes : expr.Writes target) : target.expr.EndsEnclosed := by
  obtain ⟨-, parts⟩ := ends
  cases writes with
  | name | member | cellIndex => exact .node (by simp [Target.expr]) parts
  | flatten | call => exact EndsEnclosed.apply (parts _ (.head _))

/-- A command that has outputs has at least one. -/
theorem Parser.outputs_of_command {s final : State} {call : Call}
    (run : command s = .done (.call call) final) : call.outputs ≠ some [] := by
  obtain ⟨callee, s₁, -, run⟩ := Outcome.bind_eq_done.mp run
  rw [bind_apply, commandWords_apply, Outcome.bind_done, bind_apply, report_apply,
    Outcome.bind_done] at run
  generalize (Command.words s₁.rest).1 = found at run
  obtain _ | ⟨file, _ | ⟨target, more⟩⟩ := found
  · obtain ⟨⟨rfl⟩, -⟩ := Outcome.done.inj run
    simp [Call.outputs]
  · obtain ⟨⟨rfl⟩, -⟩ := Outcome.done.inj run
    simp [Call.outputs]
  · by_cases loads : callee.name = "load"
    · simp only [loads, ↓reduceIte, bind_apply, Outcome.bind_eq_done, pure_apply] at run
      obtain ⟨outputs, s₂, read, last⟩ := run
      obtain ⟨names, words, -, rfl, -⟩ := loadTargets_words read
      obtain ⟨⟨rfl⟩, -⟩ := Outcome.done.inj last
      cases names <;> simp [Call.outputs] at words ⊢
    · simp only [loads, ↓reduceIte, pure_apply] at run
      obtain ⟨⟨rfl⟩, -⟩ := Outcome.done.inj run
      simp [Call.outputs]

/-- The demands on the form of a program. The outputs of a call that is a statement are set apart:
without them the call has the form of any other, and an `end` among them needs no bracket of its
own. -/
def Demands.formed (marked : Prop) : Demands where
  expr expr := expr.WellFormed marked ∧ expr.EndsEnclosed
  call call :=
    (Expr.call (.mk call.callee call.args none call.pos)).WellFormed marked ∧
      call.callee.EndsEnclosed ∧
      ∀ outputs, call.outputs = some outputs →
        outputs ≠ [] ∧ ∀ target ∈ outputs, target.expr.WellFormed marked
  names names := names ≠ []

/-- What is read behind a state has its form. -/
theorem Demands.kept_formed {origin : State} (known : marked → origin.Marked) :
    (Demands.formed marked).Kept origin where
  expr reached reads := by
    have whole := reads.forms fun texts => (known texts).of_reaches reached
    exact ⟨whole.formed, whole.ends rfl⟩
  comparison value subject :=
    ⟨.node trivial (by simpa [Expr.parts] using ⟨value.1, subject.1⟩),
      .node (by simp) (by simpa [Expr.openParts] using ⟨value.2, subject.2⟩)⟩
  target left writes := ⟨left.1.target writes, left.2.target writes⟩
  outputs {row _ targets _ _} left value filled writes gives := by
    obtain ⟨⟨-, elements⟩, -⟩ := left
    have several : targets ≠ [] ∧ ∀ target ∈ targets, target.expr.WellFormed marked := by
      constructor
      · rintro rfl
        cases writes
        exact filled rfl
      · intro target inside
        obtain ⟨expr, member, written⟩ := Expr.exists_writes_of_mem writes inside
        have element := elements expr (by simpa [Expr.parts] using member)
        exact Expr.WellFormed.target element written
    cases gives with
    | name function =>
      refine ⟨.node ⟨rfl, by simp [Call.args]⟩ (List.forall_mem_singleton.mpr value.1), value.2, ?_⟩
      rintro _ ⟨⟩
      exact several
    | call callee args pos =>
      refine ⟨value.1, ?_, ?_⟩
      · obtain ⟨-, parts⟩ := value.2
        exact parts _ (.head _)
      · rintro _ ⟨⟩
        exact several
  command {_ _ call} _ run := by
    have filled := Parser.outputs_of_command run
    obtain ⟨_, ⟨rfl⟩, command, -⟩ := Parser.command_done run
    have string (value : String) (pos : Position) : (Expr.string value pos).WellFormed marked :=
      .node trivial (by simp [Expr.parts])
    cases command with
    | @plain name args pos strings =>
      refine ⟨.node ⟨rfl, ?_⟩ ?_, Expr.endsEnclosed_ident name, by simp [Call.outputs]⟩
      · rintro colon rfl
        obtain ⟨value, pos, same⟩ := strings _ (.head _)
        cases same
      · refine List.forall_mem_cons.mpr ⟨Expr.wellFormed_ident name, ?_⟩
        intro arg inside
        obtain ⟨value, pos, rfl⟩ := strings arg (by simpa [Call.args] using inside)
        exact string value pos
    | @load name file filePos pos names =>
      refine ⟨.node ⟨rfl, by simp [Call.args]⟩ ?_, Expr.endsEnclosed_ident name, ?_⟩
      · simpa [Expr.parts, Call.callee, Call.args] using
          ⟨Expr.wellFormed_ident name, string file filePos⟩
      · rintro _ ⟨⟩
        refine ⟨fun none => filled (congrArg some none), fun target inside => ?_⟩
        obtain ⟨output, -, rfl⟩ := List.mem_map.mp inside
        exact Expr.wellFormed_ident output
  names := by simp [Demands.formed]

/-- Every node in an accepted program has its form; the marks of a transpose have a text when the
transpose marks among the tokens have one. -/
theorem Program.formed_of_accepted {dialect : Dialect} {tokens : List Token} {program : Program}
    (accepted : Program.ofTokens dialect tokens = some (.ok program)) :
    program.Meets (.formed (∀ token ∈ tokens, token.kind.isMark = true → token.text ≠ "")) :=
  Program.meets_of_reads (Demands.kept_formed id) accepted

/-- In `y = x(end, :)'` the only mark of a transpose has a text. -/
theorem Program.formed_of_last_row :
    (Program.mk [.assign (.var ⟨"y", ⟨1, 0⟩⟩)
      (.transpose (.call (.mk (.ident ⟨"x", ⟨1, 4⟩⟩) [.lastIndex ⟨1, 6⟩, .colon ⟨1, 11⟩] none
        ⟨1, 4⟩)) "'" ⟨1, 13⟩) ⟨1, 2⟩]).Meets (.formed True) := by
  have accepted : Program.ofTokens .strict
      [⟨.ident, "y", ⟨1, 0⟩⟩, ⟨.assign, "=", ⟨1, 2⟩⟩, ⟨.ident, "x", ⟨1, 4⟩⟩,
        ⟨.leftParen, "(", ⟨1, 5⟩⟩, ⟨.endKeyword, "end", ⟨1, 6⟩⟩, ⟨.comma, ",", ⟨1, 9⟩⟩,
        ⟨.colon, ":", ⟨1, 11⟩⟩, ⟨.rightParen, ")", ⟨1, 12⟩⟩, ⟨.transpose, "'", ⟨1, 13⟩⟩] =
      some (.ok ⟨[.assign (.var ⟨"y", ⟨1, 0⟩⟩)
        (.transpose (.call (.mk (.ident ⟨"x", ⟨1, 4⟩⟩) [.lastIndex ⟨1, 6⟩, .colon ⟨1, 11⟩] none
          ⟨1, 4⟩)) "'" ⟨1, 13⟩) ⟨1, 2⟩]⟩) := by cbv
  have formed := Program.formed_of_accepted accepted
  rwa [eq_true (show ∀ token ∈ _, _ from by decide)] at formed

end MatlabFront
