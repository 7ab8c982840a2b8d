import MatlabFront.Proofs.Program.Words

/-!
# What a command comes to

A command is a call of a name with strings as its arguments. Only `load` has outputs, and these are
names. So a command holds no operator, and the names that it uses are its own and its outputs.
-/

namespace MatlabFront

namespace Parser

/-- A command is a call of a name with strings, and with names as its outputs if it has some. -/
inductive CommandCall : Call → Prop where
  | plain {name : Ident} {args : List Expr} {pos : Position} :
    (∀ arg ∈ args, ∃ value pos, arg = .string value pos) →
      CommandCall (.mk (.ident name) args none pos)
  | load {name : Ident} {file : String} {filePos pos : Position} {names : List Ident} :
    CommandCall (.mk (.ident name) [.string file filePos] (some (names.map .var)) pos)

/-- What a name and some words come to is such a call. -/
theorem CommandTree.command {name : Token} {words : List (List Token)} {call : Call}
    (tree : CommandTree name words call) : CommandCall call := by
  cases tree with
  | plain => exact .plain (by simp [Command.argument])
  | @load file targets _ =>
    have outputs : targets.map (fun target => Target.var (declared target)) =
        (targets.map declared).map .var := List.map_map.symm
    rw [outputs]
    exact .load

/-- A command that is read is such a call, and notes the names in it. -/
theorem command_done {s final : State} {written : Stmt}
    (run : command s = .done written final) :
    ∃ call, written = .call call ∧ CommandCall call ∧
      s.Notes ((Expr.call call).Uses "nargin") final := by
  obtain ⟨name, call, rfl, command⟩ := command_takes run
  exact ⟨call, rfl, command.tree.command, command.noted⟩

/-- A command holds no operator that could be grouped otherwise. -/
theorem CommandCall.wellGrouped {call : Call} (command : CommandCall call) :
    (Expr.call call).WellGrouped := by
  have atom {expr : Expr} (grouped : expr.Grouped) (parts : expr.parts = []) : expr.WellGrouped :=
    .node grouped (by simp [parts])
  cases command with
  | @plain name args pos strings =>
    refine .node (by simp [Expr.Grouped, Expr.StandsBefore, Expr.rightSpine]) ?_
    simp only [Expr.parts, Option.getD_none, List.map_nil, List.append_nil, List.forall_mem_cons]
    refine ⟨atom trivial rfl, fun arg inside => ?_⟩
    obtain ⟨value, pos, rfl⟩ := strings arg inside
    exact atom trivial rfl
  | @load name file filePos pos names =>
    refine .node (by simp [Expr.Grouped, Expr.StandsBefore, Expr.rightSpine]) ?_
    simp only [Expr.parts, Option.getD_some, List.map_map, List.cons_append, List.nil_append,
      List.forall_mem_cons, List.mem_map]
    refine ⟨atom trivial rfl, atom trivial rfl, ?_⟩
    rintro _ ⟨output, -, rfl⟩
    exact atom trivial rfl

end Parser

end MatlabFront
