import MatlabFront.Proofs.Program.Held

/-!
# When a function uses the number of its arguments

The head of a function says whether its body uses the name `nargin`. The parser finds this out from
the names that it notes while it reads the body, and the tree agrees: a name counts where it stands
as an expression, as a variable that is written or that a loop runs over, and in a list of global
names. Members, function handles, parameters, the outputs that a return carries and the words that a
command passes are other things and count nowhere.
-/

namespace MatlabFront

/-- A name is used in a statement of a block, at any depth. -/
def BlockUses (name : String) (body : List Stmt) : Prop :=
  ∃ inner : Stmt, inner.Within body ∧ ∃ expr ∈ inner.own, expr.Uses name

namespace Surface

variable {dialect : Dialect} {s final : State}

/-- A comparison uses the names that one of its sides uses. -/
theorem compares_uses (name : String) : Compares (Expr.Uses name) := by
  intro value subject pos
  rw [Expr.uses_iff_parts (by simp)]
  simp [Expr.parts]

/-- What the scope of a function has noted behind its body is what the body uses, whatever was noted
in front of the function. -/
theorem Reads.usesNargin_iff {head : Header} {body : List Statement}
    (reads : Reads dialect (.block Parser.endsFunction body) (s.enter head) final)
    (cased : casedAll body = true) :
    final.usesNargin = true ↔ BlockUses "nargin" (closed head (lowerAll head.outputs body)) := by
  have fresh : (s.enter head).scope = some ⟨head.outputs, false⟩ := rfl
  have noted : (s.enter head).Notes (∃ expr ∈ exprsAll body, expr.Uses "nargin") final :=
    reads.noted
  obtain ⟨-, written⟩ := noted.usesNargin fresh
  have tree := holds_lowerAll (compares_uses "nargin") head.outputs body cased
  calc final.usesNargin = true
      ↔ ∃ expr ∈ exprsAll body, expr.Uses "nargin" := written
    _ ↔ BlockUses "nargin" (lowerAll head.outputs body) := tree.symm
    _ ↔ BlockUses "nargin" (closed head (lowerAll head.outputs body)) := blockHolds_closed.symm

end Surface

/-- In an accepted program in which each switch has a case, the head of a function says that the
number of its arguments is used exactly when a name `nargin` is used in its own body. -/
theorem Program.usesNargin_of_accepted {dialect : Dialect} {tokens : List Token}
    {program : Program} (accepted : Program.ofTokens dialect tokens = some (.ok program)) :
    (∃ items final, Surface.Reads dialect (.items items) (.start tokens) final ∧
      final.rest = []) ∧
    ∀ items final, Surface.Reads dialect (.items items) (.start tokens) final →
      final.rest = [] → (∀ item ∈ items, item.cased = true) →
      ∀ function, .function function ∈ program.body →
        (function.head.usesNargin = true ↔ BlockUses "nargin" function.body) := by
  constructor
  · obtain ⟨items, final, reads, ended, -⟩ := Surface.program_sound accepted
    exact ⟨items, final, reads, ended⟩
  intro items final reads ended cased function inside
  have tree := Surface.program_accepted reads ended (Surface.sound_of_accepted accepted)
  obtain rfl := Except.ok.inj (Option.some.inj (accepted.symm.trans tree))
  obtain ⟨item, among, lowered⟩ := List.mem_flatMap.mp inside
  cases item with
  | statement written =>
    -- No statement comes to a function.
    exact (written.keeps [] _ (.here lowered)).elim
  | function head body =>
    obtain ⟨rfl⟩ := List.mem_singleton.mp lowered
    obtain ⟨keyword, opened, s, s₁, s₂, -, -, -, -, bodyReads, rfl⟩ :=
      reads.function_of_mem among
    exact bodyReads.usesNargin_iff (cased _ among)

/-- A function that declares `nargin` global uses the number of its arguments. -/
theorem Program.usesNargin_of_global :
    ∃ function, Program.ofTokens .strict
        [⟨.functionKeyword, "function", ⟨1, 0⟩⟩, ⟨.ident, "f", ⟨1, 9⟩⟩, ⟨.comma, ",", ⟨1, 10⟩⟩,
          ⟨.globalKeyword, "global", ⟨1, 12⟩⟩, ⟨.ident, "nargin", ⟨1, 19⟩⟩] =
      some (.ok ⟨[.function function]⟩) ∧
      function.head.usesNargin = true ∧ BlockUses "nargin" function.body := by
  have accepted : Program.ofTokens .strict
      [⟨.functionKeyword, "function", ⟨1, 0⟩⟩, ⟨.ident, "f", ⟨1, 9⟩⟩, ⟨.comma, ",", ⟨1, 10⟩⟩,
        ⟨.globalKeyword, "global", ⟨1, 12⟩⟩, ⟨.ident, "nargin", ⟨1, 19⟩⟩] =
      some (.ok ⟨[.function (.mk ⟨⟨"f", ⟨1, 9⟩⟩, [], [], true, ⟨1, 0⟩⟩
        [.global [⟨"nargin", ⟨1, 19⟩⟩] ⟨1, 12⟩, .leave [] ⟨1, 0⟩])]⟩) := by cbv
  obtain ⟨-, counted⟩ := Program.usesNargin_of_accepted accepted
  have head : Surface.Head ⟨1, 0⟩ _
      ⟨[⟨.functionKeyword, "function", ⟨1, 0⟩⟩], [⟨.ident, "f", ⟨1, 9⟩⟩, ⟨.comma, ",", ⟨1, 10⟩⟩,
        ⟨.globalKeyword, "global", ⟨1, 12⟩⟩, ⟨.ident, "nargin", ⟨1, 19⟩⟩], none, []⟩
      ⟨[⟨.ident, "f", ⟨1, 9⟩⟩, ⟨.functionKeyword, "function", ⟨1, 0⟩⟩], [⟨.comma, ",", ⟨1, 10⟩⟩,
        ⟨.globalKeyword, "global", ⟨1, 12⟩⟩, ⟨.ident, "nargin", ⟨1, 19⟩⟩], none, []⟩ :=
    .mk (.none (by decide) (by decide)) rfl rfl (.none (by decide))
  have body : Surface.Reads .strict (.block Parser.endsFunction [_])
      ⟨[⟨.ident, "f", ⟨1, 9⟩⟩, ⟨.functionKeyword, "function", ⟨1, 0⟩⟩], [⟨.comma, ",", ⟨1, 10⟩⟩,
        ⟨.globalKeyword, "global", ⟨1, 12⟩⟩, ⟨.ident, "nargin", ⟨1, 19⟩⟩], some ⟨[], false⟩,
        [.functionOpened "f"]⟩ _ :=
    .block rfl rfl rfl
      (.statement (.global rfl rfl (.name rfl rfl (.stop (by decide)))) rfl) (.blockEnd rfl)
  have flag := counted _ _ (.function rfl rfl head body (.noItems rfl) rfl) rfl (by decide)
  exact ⟨_, accepted, rfl, (flag _ (List.mem_singleton.mpr rfl)).mp rfl⟩

end MatlabFront
