import MatlabFront.Proofs.Expression.Ignored
import MatlabFront.Proofs.Program.Demands

/-!
# Ignored outputs in accepted programs

In an accepted program a name that is a tilde is an output of a call or ends an element of a
literal. A list of targets turns the elements that are tildes into outputs; in a literal that is no
list of targets they stay. No other name is a tilde, since no name among the tokens of a text is.
-/

namespace MatlabFront

/-- An element that is read as a target may be an output. -/
theorem Expr.Writes.tildesPlaced {expr : Expr} {target : Target} (writes : expr.Writes target)
    (placed : TildesPlaced (expr.names .element)) : TildesPlaced (target.names .output) := by
  cases writes with
  | name => exact tildesPlaced_singleton.mpr fun _ => by decide
  | member | cellIndex | flatten | call => exact placed

/-- A call with outputs has its tildes where its value and its outputs have them. -/
theorem Expr.Gives.tildesPlaced {value : Expr} {outputs : List Target} {call : Call}
    (gives : value.Gives outputs call) (valuePlaced : TildesPlaced (value.names .elsewhere))
    (outputsPlaced : TildesPlaced (outputNames outputs)) : TildesPlaced call.names := by
  cases gives with
  | name => exact tildesPlaced_append.mpr ⟨valuePlaced, outputsPlaced⟩
  | call =>
    obtain ⟨callee, args⟩ := tildesPlaced_append.mp valuePlaced
    exact tildesPlaced_append.mpr ⟨callee, tildesPlaced_append.mpr ⟨args, outputsPlaced⟩⟩

/-- A command has no tildes if its own name is none. -/
theorem Parser.CommandRead.tildesPlaced {s final : State} {name : Token} {words : List (List Token)}
    {call : Call} (read : CommandRead s name words call final) (worded : s.Worded) :
    TildesPlaced call.names := by
  have named : TildesPlaced ((Expr.ident (declared name)).names .elsewhere) :=
    tildesPlaced_singleton.mpr fun tilde => absurd tilde (worded.text read.known read.kind)
  have strings (found : List (List Token)) :
      TildesPlaced (argNames (found.map (Command.argument name.pos))) :=
    tildesPlaced_argNames.mpr (List.forall_mem_map.mpr fun _ _ => tildesPlaced_nil)
  cases read.tree with
  | plain => exact tildesPlaced_append.mpr ⟨named, strings words⟩
  | @load file targets =>
    refine tildesPlaced_append.mpr ⟨named, tildesPlaced_append.mpr ⟨strings [file], ?_⟩⟩
    refine tildesPlaced_outputNames.mpr (List.forall_mem_map.mpr fun target _ => ?_)
    exact tildesPlaced_singleton.mpr fun _ => by decide

/-- The demand that tildes are outputs or end elements. -/
def Demands.tildes : Demands where
  expr expr := TildesPlaced (expr.names .elsewhere)
  call call := TildesPlaced call.names
  names _ := True

/-- The tildes in what is read are outputs or end elements. -/
theorem Demands.kept_tildes {origin : State} (worded : origin.Worded) :
    Demands.tildes.Kept origin where
  expr reached reads :=
    Grammar.TildesPlacedAt.closed (reads.keepsTildes (worded.behind reached)) (by simp)
  comparison value subject := tildesPlaced_append.mpr ⟨value, subject⟩
  target {_ target} left writes := by
    cases writes with
    | name | member | cellIndex => exact left
    | flatten | call =>
      obtain ⟨callee, args⟩ := tildesPlaced_append.mp left
      exact Expr.tildesPlaced_apply callee args
  outputs {row _ targets _ _} left value _ writes gives := by
    have elements := tildesPlaced_elementNames.mp (tildesPlaced_rowNames.mp left)
    refine gives.tildesPlaced value (tildesPlaced_outputNames.mpr fun target inside => ?_)
    obtain ⟨expr, member, written⟩ := Expr.exists_writes_of_mem writes inside
    exact written.tildesPlaced (elements expr (by simpa using member))
  command reached run := by
    obtain ⟨_, _, ⟨rfl⟩, read⟩ := Parser.command_takes run
    exact read.tildesPlaced (worded.behind reached)
  names := trivial

variable {outputs : List Ident}

mutual

/-- A statement that meets the demand has its tildes there, and none among its own names. -/
theorem Stmt.Located.tildesPlaced (plain : ∀ output ∈ outputs, output.name ≠ "~") :
    ∀ {run : List Token} {stmt : Stmt}, stmt.Located outputs run →
      (∀ token ∈ run, token.Worded) → stmt.Meets .tildes → TildesPlaced stmt.names
  | _, _, @Stmt.Located.assign _ _ _ target _ _ _ _ _ _ _, _, meets => by
    have written : TildesPlaced (target.expr.names .elsewhere) := meets.1
    rw [Target.names_expr] at written
    exact tildesPlaced_append.mpr ⟨written, meets.2⟩
  | _, _, .assignAll _ _ _ _ _, _, meets | _, _, .eval _, _, meets | _, _, .command _, _, meets
  | _, _, .load _ _, _, meets => meets
  | _, _, .branch chain _, worded, meets =>
    chain.tildesPlaced plain (fun token inside => worded token (by simp [inside])) meets
  | _, _, .switch _ _ chain _, worded, meets =>
    chain.tildesPlaced plain (fun token inside => worded token (by simp [inside])) meets
  | _, _, .whileLoop _ _ body _, worded, meets => by
    have inside :=
      body.tildesPlaced plain (fun token among => worded token (by simp [among])) meets.2
    exact tildesPlaced_append.mpr ⟨meets.1, inside⟩
  | _, _, @Stmt.Located.forLoop _ _ _ _ name _ _ _ _ _ _ _ named _ _ body _, worded, meets => by
    have var : name.text ≠ "~" := worded name (by simp) named
    have inside :=
      body.tildesPlaced plain (fun token among => worded token (by simp [among])) meets.2
    refine tildesPlaced_append.mpr ⟨?_, tildesPlaced_append.mpr ⟨meets.1, inside⟩⟩
    exact tildesPlaced_plainNames.mpr (List.forall_mem_singleton.mpr var)
  | _, _, .tryCatch _ body handler _, worded, meets => by
    have guarded :=
      body.tildesPlaced plain (fun token among => worded token (by simp [among])) meets.1
    have handled :=
      handler.tildesPlaced plain (fun token among => worded token (by simp [among])) meets.2
    exact tildesPlaced_append.mpr ⟨guarded, handled⟩
  | _, _, .leave _, _, _ => tildesPlaced_plainNames.mpr plain
  | _, _, .breakLoop _, _, _ | _, _, .continueLoop _, _, _ => tildesPlaced_nil
  | _, _, .global _ names, worded, _ =>
    tildesPlaced_plainNames.mpr (List.forall_mem_map.mpr fun name inside =>
      worded name (.tail _ inside) (names name inside))

/-- So do some statements. -/
theorem BlockLocated.tildesPlaced (plain : ∀ output ∈ outputs, output.name ≠ "~") :
    ∀ {run : List Token} {body : List Stmt}, BlockLocated outputs run body →
      (∀ token ∈ run, token.Worded) → BlockMeets .tildes body → TildesPlaced (blockNames body)
  | _, _, .nil, _, _ => tildesPlaced_nil
  | _, _, .skip later, worded, meets =>
    later.tildesPlaced plain (List.forall_mem_cons.mp worded).2 meets
  | _, _, .cons first later, worded, meets => by
    obtain ⟨before, behind⟩ := List.forall_mem_append.mp worded
    exact tildesPlaced_append.mpr
      ⟨first.tildesPlaced plain before meets.1, later.tildesPlaced plain behind meets.2⟩

/-- So does a condition with its alternatives. -/
theorem Conditional.Located.tildesPlaced (plain : ∀ output ∈ outputs, output.name ≠ "~") :
    ∀ {link : Link} {run : List Token} {conditional : Conditional},
      conditional.Located outputs link run → (∀ token ∈ run, token.Worded) →
        conditional.Meets .tildes → TildesPlaced conditional.names
  | _, _, _, .mk _ _ body otherwise, worded, meets => by
    have inside :=
      body.tildesPlaced plain (fun token among => worded token (by simp [among])) meets.2.1
    have behind :=
      otherwise.tildesPlaced plain (fun token among => worded token (by simp [among])) meets.2.2
    exact tildesPlaced_append.mpr ⟨meets.1, tildesPlaced_append.mpr ⟨inside, behind⟩⟩

/-- So does an alternative. -/
theorem Else.Located.tildesPlaced (plain : ∀ output ∈ outputs, output.name ≠ "~") :
    ∀ {link : Link} {run : List Token} {otherwise : Else}, otherwise.Located outputs link run →
      (∀ token ∈ run, token.Worded) → otherwise.Meets .tildes → TildesPlaced otherwise.names
  | _, _, _, .block body, worded, meets => body.tildesPlaced plain worded meets
  | _, _, _, .skip later, worded, meets =>
    later.tildesPlaced plain (List.forall_mem_cons.mp worded).2 meets
  | _, _, _, .branch chain, worded, meets => chain.tildesPlaced plain worded meets

end

/-- The names in the head of a function are no tildes. -/
theorem Header.Located.names {head : Header} {run : List Token} (located : head.Located run)
    (worded : ∀ token ∈ run, token.Worded) :
    ∀ name ∈ head.name :: head.outputs, name.name ≠ "~" := by
  refine List.forall_mem_cons.mpr ⟨?_, fun output inside => ?_⟩
  · obtain ⟨token, found, kind, same⟩ := located.name
    rw [same]
    exact worded token found kind
  · obtain ⟨token, found, kind, rfl⟩ := located.outputs output inside
    exact worded token found kind

/-- The statements and functions of a program that meet the demand have their tildes there. -/
theorem TopLocated.tildesPlaced {run : List Token} {body : List Stmt}
    (located : TopLocated run body) :
    (∀ token ∈ run, token.Worded) → BlockMeets .tildes body → TildesPlaced (blockNames body) := by
  induction located with
  | nil => exact fun _ _ => tildesPlaced_nil
  | skip _ ih => exact fun worded meets => ih (List.forall_mem_cons.mp worded).2 meets
  | block statements _ ih =>
    intro worded meets
    obtain ⟨before, behind⟩ := List.forall_mem_append.mp worded
    obtain ⟨first, later⟩ := blockMeets_append.mp meets
    rw [blockNames_append]
    have here := statements.tildesPlaced (List.forall_mem_nil _) before first
    exact tildesPlaced_append.mpr ⟨here, ih behind later⟩
  | @function head written closed _ _ _ _ _ _ _ names statements ends _ ih =>
    intro worded meets
    obtain ⟨-, ⟨front, middle, back⟩⟩ : _ ∧ _ ∧ _ ∧ _ := by
      simpa only [List.forall_mem_cons, List.forall_mem_append] using worded
    have named := names.names front
    obtain ⟨-, outputs⟩ := List.forall_mem_cons.mp named
    have inside : TildesPlaced (blockNames closed) := by
      obtain rfl | rfl := ends
      · exact statements.tildesPlaced outputs middle meets.1
      · rw [blockNames_append]
        refine tildesPlaced_append.mpr
          ⟨statements.tildesPlaced outputs middle (blockMeets_append.mp meets.1).1, ?_⟩
        exact tildesPlaced_append.mpr ⟨tildesPlaced_plainNames.mpr outputs, tildesPlaced_nil⟩
    exact tildesPlaced_append.mpr
      ⟨tildesPlaced_append.mpr ⟨tildesPlaced_plainNames.mpr named, inside⟩, ih back meets.2⟩

/-- In the program of an accepted text a name that is a tilde is an output of a call or the operand
with which an element of a literal ends. So all of them are outputs exactly when no tilde ends an
element of a literal that is left. -/
theorem Program.ignored_of_accepted {dialect : Dialect} {text : String} {program : Program}
    (accepted : Program.ofTokens dialect (Token.ofText text) = some (.ok program)) :
    (∀ entry ∈ program.names, entry.2.name = "~" → entry.1 = .output ∨ entry.1 = .element) ∧
      ((∀ entry ∈ program.names, entry.2.name = "~" → entry.1 = .output) ↔
        ∀ entry ∈ program.names, entry.2.name = "~" → entry.1 ≠ .element) := by
  have worded : ∀ token ∈ Token.ofText text, token.Worded := Context.worded .start text.toList
  have meets : program.Meets .tildes :=
    Program.meets_of_reads (Demands.kept_tildes worded) accepted
  have placed : TildesPlaced program.names :=
    (TopLocated.of_accepted accepted).tildesPlaced worded meets
  have either : ∀ entry ∈ program.names, entry.2.name = "~" →
      entry.1 = .output ∨ entry.1 = .element := by
    intro entry inside tilde
    have apart := placed entry inside tilde
    cases place : entry.1 with
    | output => exact .inl rfl
    | element => exact .inr rfl
    | elsewhere => exact absurd place apart
  refine ⟨either, fun outputs entry inside tilde => ?_, fun apart entry inside tilde => ?_⟩
  · rw [outputs entry inside tilde]
    decide
  · exact (either entry inside tilde).resolve_right (apart entry inside tilde)

/-- In `[~, i] = max(v)` the tilde is an output of the call. -/
theorem Program.ignored_of_call :
    Program.ofTokens .strict (Token.ofText "[~, i] = max(v)") =
      some (.ok ⟨[.call (.mk (.ident ⟨"max", ⟨1, 9⟩⟩) [.ident ⟨"v", ⟨1, 13⟩⟩]
        (some [.var ⟨"~", ⟨1, 1⟩⟩, .var ⟨"i", ⟨1, 4⟩⟩]) ⟨1, 9⟩)]⟩) ∧
      ∀ entry ∈ (Program.mk [.call (.mk (.ident ⟨"max", ⟨1, 9⟩⟩) [.ident ⟨"v", ⟨1, 13⟩⟩]
        (some [.var ⟨"~", ⟨1, 1⟩⟩, .var ⟨"i", ⟨1, 4⟩⟩]) ⟨1, 9⟩)]).names,
        entry.2.name = "~" → entry.1 = .output := by
  have accepted : Program.ofTokens .strict (Token.ofText "[~, i] = max(v)") =
      some (.ok ⟨[.call (.mk (.ident ⟨"max", ⟨1, 9⟩⟩) [.ident ⟨"v", ⟨1, 13⟩⟩]
        (some [.var ⟨"~", ⟨1, 1⟩⟩, .var ⟨"i", ⟨1, 4⟩⟩]) ⟨1, 9⟩)]⟩) := by
    cbv
  exact ⟨accepted, (Program.ignored_of_accepted accepted).2.mpr (by decide)⟩

/-- The tilde of `x = {~, 1}` is an element of the value, and no output. -/
theorem Program.ignored_of_cell :
    (∀ dialect, Program.ofTokens dialect (Token.ofText "x = \x7b~, 1\x7d") =
      some (.ok ⟨[.assign (.var ⟨"x", ⟨1, 0⟩⟩)
        (.cell [[.ident ⟨"~", ⟨1, 5⟩⟩, .number "1" ⟨1, 8⟩]] ⟨1, 4⟩) ⟨1, 2⟩]⟩)) ∧
      (Place.element, (⟨"~", ⟨1, 5⟩⟩ : Ident)) ∈ (Program.mk [.assign (.var ⟨"x", ⟨1, 0⟩⟩)
        (.cell [[.ident ⟨"~", ⟨1, 5⟩⟩, .number "1" ⟨1, 8⟩]] ⟨1, 4⟩) ⟨1, 2⟩]).names := by
  constructor
  · intro dialect
    cases dialect <;> cbv
  · decide

end MatlabFront
