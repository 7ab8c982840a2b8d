import Mathlib.Logic.Basic
import MatlabFront.Proofs.Expression.Scope
import MatlabFront.Proofs.Parser.Advance
import MatlabFront.Proofs.Program.Steps

/-!
# The tokens of a command

A command takes its name and the words behind it and no other token. Every word becomes a string
that the command passes, but for the words of `load` behind the first: each of them is a single
name and becomes an output.
-/

namespace MatlabFront

namespace Parser

/-- The call that a name and the words behind it come to. -/
inductive CommandTree (name : Token) : List (List Token) → Call → Prop where
  | plain (words : List (List Token)) :
    CommandTree name words
      (.mk (.ident (declared name)) (words.map (Command.argument name.pos)) none name.pos)
  | load (file : List Token) {targets : List Token} :
    (∀ target ∈ targets, target.kind = .ident) →
      CommandTree name (file :: targets.map fun target => [target])
        (.mk (.ident (declared name)) [Command.argument name.pos file]
          (some (targets.map fun target => .var (declared target))) name.pos)

/-- A command with a name and some words is read between two states and is a call. -/
structure CommandRead (s : State) (name : Token) (words : List (List Token)) (call : Call)
    (final : State) : Prop where
  known : s.peek = some name
  kind : name.kind = .ident
  tree : CommandTree name words call
  advances : s.Advances (name :: words.flatten) final
  noted : s.Notes ((Expr.call call).Uses "nargin") final
  events : final.events = .command name.text words.length :: s.events

/-- The words of a command use no names. -/
theorem not_uses_argument {fallback : Position} {word : List Token} {used : String} :
    ¬(Command.argument fallback word).Uses used := by
  rw [Command.argument, Expr.uses_iff_parts (by simp)]
  simp [Expr.parts]

/-- A command uses its own name and its outputs. -/
theorem uses_command {name : Token} {words : List (List Token)} {outputs : Option (List Target)}
    {pos : Position} {used : String} :
    (Expr.call (.mk (.ident (declared name)) (words.map (Command.argument pos)) outputs pos)).Uses
        used ↔
      name.text = used ∨ ∃ target ∈ outputs.getD [], target.expr.Uses used := by
  rw [Expr.uses_iff_parts (by simp)]
  simp [Expr.parts, or_and_right, exists_or, not_uses_argument, Expr.uses_ident, declared]

variable {s final : State}

/-- The words that become outputs of `load` are single names, each is noted as used, and no token is
read for them. -/
theorem loadTargets_words {fallback : Position} {words : List (List Token)}
    {targets : List Target} (run : loadTargets fallback words s = .done targets final) :
    ∃ names : List Token, words = names.map (fun name => [name]) ∧
      (∀ name ∈ names, name.kind = .ident) ∧
      targets = names.map (fun name => .var (declared name)) ∧ s.Advances [] final ∧
      s.Notes (∃ target ∈ targets, target.expr.Uses "nargin") final ∧
      final.events = s.events := by
  induction words generalizing s targets with
  | nil =>
    obtain ⟨rfl, rfl⟩ := Outcome.done.inj run
    exact ⟨[], rfl, by simp, rfl, .refl s, .of_scope_eq rfl (by simp), rfl⟩
  | cons word words ih =>
    match word with
    | [token] =>
      by_cases kind : token.kind = .ident
      · simp only [loadTargets, kind, ↓reduceIte, bind_apply, used_apply, pure_apply,
          Outcome.bind_done, Outcome.bind_eq_done] at run
        obtain ⟨later, s₁, rest, last⟩ := run
        obtain ⟨rfl, rfl⟩ := Outcome.done.inj last
        obtain ⟨names, rfl, kinds, rfl, advances, noted, same⟩ := ih rest
        refine ⟨token :: names, rfl, List.forall_mem_cons.mpr ⟨kind, kinds⟩, rfl, ?_, ?_, ?_⟩
        · exact ((State.Advances.refl s).note token.text).trans advances
        · refine ((State.Notes.note s token.text).trans noted).congr ?_
          simp [Target.expr, Expr.uses_ident, declared]
        · rw [same, State.note_events]
      · simp [loadTargets, kind] at run
    | [] | _ :: _ :: _ => simp [loadTargets] at run

/-- A command takes its name and its words, is the call that they come to, notes the names in it
and is reported. -/
theorem command_takes {written : Stmt} (run : command s = .done written final) :
    ∃ name call, written = .call call ∧
      CommandRead s name (Command.words s.next.rest).1 call final := by
  obtain ⟨callee, s₁, first, run⟩ := Outcome.bind_eq_done.mp run
  obtain ⟨name, known, kind, rfl, rfl⟩ := expectUsed_eq_done.mp first
  have words : commandWords (s.next.note name.text) = .done (Command.words s.next.rest).1
      { s.next.note name.text with
        consumed := (Command.words s.next.rest).1.flatten.reverse ++ s.next.consumed
        rest := (Command.words s.next.rest).2 } := by
    rw [commandWords_apply, State.note_rest, State.note_consumed]
  rw [bind_apply, words, Outcome.bind_done, bind_apply, report_apply, Outcome.bind_done,
    State.note_events] at run
  have advances (scope : Option Scope) (events : List Event) :
      s.Advances (name :: (Command.words s.next.rest).1.flatten)
        ⟨(Command.words s.next.rest).1.flatten.reverse ++ s.next.consumed,
          (Command.words s.next.rest).2, scope, events⟩ :=
    .cons known ⟨(Command.words_flatten s.next.rest).symm, rfl⟩
  have noted : s.Notes (name.text = "nargin") (s.next.note name.text) :=
    (State.Notes.note s.next name.text).behind rfl
  -- Without outputs the call uses its own name only.
  have plain (words : List (List Token)) : (Expr.call (.mk (.ident (declared name))
      (words.map (Command.argument name.pos)) none name.pos)).Uses "nargin" ↔
      name.text = "nargin" := uses_command.trans (by simp)
  generalize (Command.words s.next.rest).1 = found at *
  obtain _ | ⟨file, _ | ⟨target, more⟩⟩ := found
  · obtain ⟨rfl, rfl⟩ := Outcome.done.inj run
    exact ⟨name, _, rfl, known, kind, .plain [], advances _ _,
      (noted.congr (plain [])).before rfl, rfl⟩
  · obtain ⟨rfl, rfl⟩ := Outcome.done.inj run
    exact ⟨name, _, rfl, known, kind, .plain [file], advances _ _,
      (noted.congr (plain [file])).before rfl, rfl⟩
  · by_cases loads : (declared name).name = "load"
    · simp only [loads, ↓reduceIte, bind_apply, Outcome.bind_eq_done, pure_apply] at run
      obtain ⟨outputs, s₂, read, last⟩ := run
      obtain ⟨rfl, rfl⟩ := Outcome.done.inj last
      obtain ⟨targets, names, kinds, rfl, still, outputs, unreported⟩ := loadTargets_words read
      refine ⟨name, _, rfl, known, kind, ?_, ?_, ?_, ?_⟩
      · rw [names]
        exact .load file kinds
      · simpa using (advances _ _).trans still
      · exact ((noted.before rfl).trans outputs).congr (@uses_command name [file] _ _ _)
      · rw [unreported, ← loads]
        rfl
    · simp only [loads, ↓reduceIte, pure_apply] at run
      obtain ⟨rfl, rfl⟩ := Outcome.done.inj run
      exact ⟨name, _, rfl, known, kind, .plain _, advances _ _,
        (noted.congr (plain _)).before rfl, rfl⟩

end Parser

end MatlabFront
