import MatlabFront.Proofs.Program.Held
import MatlabFront.Proofs.Program.Leaves

/-!
# The tree of a program holds its names, numbers and strings

What is written in a program is borne by its tree, as long as every switch has a case: the subject
of a switch stands in the comparisons of its cases only. So every name, number and string among the
tokens of an accepted program reaches the tree, at its own position or in the word of a command.
-/

namespace MatlabFront

/-- A statement of a block bears a leaf, at any depth. -/
def BlockBears (leaf : Leaf) (body : List Stmt) : Prop :=
  ∃ inner : Stmt, inner.Within body ∧ BorneBy inner.own leaf

/-- The tree of a program bears a leaf, outside of functions or in the head or the body of one. -/
def Program.Bears (leaf : Leaf) (program : Program) : Prop :=
  BlockBears leaf program.body ∨ ∃ function, .function function ∈ program.body ∧
    (BorneBy (function.head.idents.map .ident) leaf ∨ BlockBears leaf function.body)

variable {leaf : Leaf}

namespace Surface

/-- A comparison bears what one of its sides bears. -/
theorem compares_bears : Compares (Expr.Bears leaf) := by
  intro value subject pos
  rw [Expr.bears_iff_parts rfl]
  simp [Expr.parts, BorneBy]

/-- The tree of what is written at the top of a program bears it, with the names in the heads of
functions. -/
theorem bears_items {items : List Item} (cased : ∀ item ∈ items, item.cased = true)
    (borne : BorneBy (items.flatMap Item.written) leaf) :
    (Program.mk (items.flatMap Item.lower)).Bears leaf := by
  obtain ⟨expr, inside, bears⟩ := borne
  obtain ⟨item, among, written⟩ := List.mem_flatMap.mp inside
  cases item with
  | statement statement =>
    have tree := (statement.holds_lower compares_bears [] (cased _ among)).mpr
      ⟨expr, written, bears⟩
    obtain ⟨inner, inside, held⟩ := blockHolds_iff.mp tree
    exact .inl (blockHolds_iff.mpr ⟨inner, List.mem_flatMap.mpr ⟨_, among, inside⟩, held⟩)
  | function head body =>
    refine .inr ⟨_, List.mem_flatMap.mpr ⟨_, among, List.mem_singleton.mpr rfl⟩, ?_⟩
    refine (borneBy_append.mp ⟨expr, written, bears⟩).imp_right fun inside => ?_
    have tree := (holds_lowerAll compares_bears head.outputs body (cased _ among)).mpr inside
    exact blockHolds_closed.mpr tree

end Surface

/-- Every name, number and string among the tokens of an accepted program in which each switch has a
case is borne by the tree of the program, or, in the lenient dialect, is a token of a word of a
command whose string is. What is read over behind a malformed condition holds none of them. -/
theorem Program.bears_of_accepted {dialect : Dialect} {tokens : List Token} {program : Program}
    (accepted : Program.ofTokens dialect tokens = some (.ok program)) :
    (∃ items final, Surface.Reads dialect (.items items) (.start tokens) final ∧
      final.rest = []) ∧
    (∀ items final, Surface.Reads dialect (.items items) (.start tokens) final →
      final.rest = [] → (∀ item ∈ items, item.cased = true) →
      ∀ token ∈ tokens, token.kind.isLeaf = true →
        ∃ leaf, token.StandsFor dialect tokens leaf ∧ program.Bears leaf) ∧
    ∀ s final : State, Parser.resynchronize dialect s = .done () final →
      ∀ token ∈ s.rest, token.kind.isLeaf = true → token ∈ final.rest := by
  refine ⟨?_, fun items final reads ended cased token inside isLeaf => ?_,
    fun s final run token inside isLeaf => ?_⟩
  · obtain ⟨items, final, reads, ended, -⟩ := Surface.program_sound accepted
    exact ⟨items, final, reads, ended⟩
  · have tree := Surface.program_accepted reads ended (Surface.sound_of_accepted accepted)
    obtain rfl := Except.ok.inj (Option.some.inj (accepted.symm.trans tree))
    obtain left | ⟨leaf, stands, borne⟩ := reads.kept.kept token inside isLeaf
    · rw [ended] at left
      cases left
    · exact ⟨leaf, stands, Surface.bears_items cased borne⟩
  · rw [Parser.resynchronize_apply] at run
    cases dialect with
    | strict => cases run
    | matlab =>
      obtain ⟨-, rfl⟩ := Outcome.done.inj run
      have keeps : s.Keeps .matlab (fun _ => False) s.resume := .resume
      exact (keeps.kept token inside isLeaf).resolve_right fun ⟨_, _, impossible⟩ => impossible

/-- The name `x` in the command `disp on.x` is in a word that the command passes as a string. -/
theorem Program.bears_of_command_word :
    ∃ leaf, (Token.mk .ident "x" ⟨1, 8⟩).StandsFor .matlab
        [⟨.ident, "disp", ⟨1, 0⟩⟩, ⟨.ident, "on", ⟨1, 5⟩⟩, ⟨.dot, ".", ⟨1, 7⟩⟩,
          ⟨.ident, "x", ⟨1, 8⟩⟩] leaf ∧
      (Program.mk [.call (.mk (.ident ⟨"disp", ⟨1, 0⟩⟩) [.string "on.x" ⟨1, 5⟩] none
        ⟨1, 0⟩)]).Bears leaf := by
  have accepted : Program.ofTokens .matlab
      [⟨.ident, "disp", ⟨1, 0⟩⟩, ⟨.ident, "on", ⟨1, 5⟩⟩, ⟨.dot, ".", ⟨1, 7⟩⟩,
        ⟨.ident, "x", ⟨1, 8⟩⟩] =
      some (.ok ⟨[.call (.mk (.ident ⟨"disp", ⟨1, 0⟩⟩) [.string "on.x" ⟨1, 5⟩] none
        ⟨1, 0⟩)]⟩) := by cbv
  obtain ⟨-, borne, -⟩ := Program.bears_of_accepted accepted
  have run : Parser.command (.start [⟨.ident, "disp", ⟨1, 0⟩⟩, ⟨.ident, "on", ⟨1, 5⟩⟩,
        ⟨.dot, ".", ⟨1, 7⟩⟩, ⟨.ident, "x", ⟨1, 8⟩⟩]) =
      .done (.call (.mk (.ident ⟨"disp", ⟨1, 0⟩⟩) [.string "on.x" ⟨1, 5⟩] none ⟨1, 0⟩))
        ⟨[⟨.ident, "x", ⟨1, 8⟩⟩, ⟨.dot, ".", ⟨1, 7⟩⟩, ⟨.ident, "on", ⟨1, 5⟩⟩,
          ⟨.ident, "disp", ⟨1, 0⟩⟩], [], none, [.command "disp" 1]⟩ := by cbv
  have reads := Surface.Reads.statement (.command rfl rfl (by cbv) run) rfl
  exact borne _ _ (.item rfl rfl reads (.noItems rfl)) rfl (List.forall_mem_singleton.mpr rfl) _
    (by simp) rfl

end MatlabFront
