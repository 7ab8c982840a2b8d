import Mathlib.Tactic.Tauto
import MatlabFront.Files.Tree

/-!
# Files that have been written

What is written at a path is read at the path. A path may go through directories that it leaves
again by steps up, so that more directories lie on the way than the names in front of the file say.
All of them are there before the file is written, and a directory that is there stays one.
-/

namespace MatlabFront

namespace FileNode

/-- A part of a path that names an entry: neither empty nor a step. -/
def Names (part : List Char) : Prop := part ≠ [] ∧ part ≠ ['.'] ∧ part ≠ ['.', '.']

variable {text : String} {name part : List Char} {names trail parts : List (List Char)}
  {entries top written : List (String × FileNode)} {node inner : FileNode}
  {above : List FileNode}

/-- An entry that has been put is found. -/
theorem lookup_put_self (name : String) (node : FileNode) (entries : List (String × FileNode)) :
    (put name node entries).lookup name = some node := by
  induction entries with
  | nil => simp [put]
  | cons entry entries ih =>
    obtain ⟨old, inner⟩ := entry
    by_cases same : old = name
    · simp [put, same]
    · rw [put, if_neg same, List.lookup_cons, beq_false_of_ne (Ne.symm same), ih]

/-- The other entries are found as before. -/
theorem lookup_put_of_ne {name other : String} (apart : other ≠ name) (node : FileNode)
    (entries : List (String × FileNode)) :
    (put name node entries).lookup other = entries.lookup other := by
  induction entries with
  | nil => simp [put, apart]
  | cons entry entries ih =>
    obtain ⟨old, inner⟩ := entry
    by_cases same : old = name
    · simp [put, same, List.lookup_cons, beq_false_of_ne apart]
    · simp only [put, if_neg same, List.lookup_cons, ih]

/-- A name leads to the entry of the name. -/
theorem follow_name (named : Names part)
    (known : entries.lookup (String.ofList part) = some inner) (above : List FileNode) :
    (directory entries).follow above (part :: parts) =
      inner.follow (directory entries :: above) parts := by
  obtain ⟨notEmpty, notHere, notUp⟩ := named
  rw [follow.eq_def]
  simp only [notEmpty, notHere, notUp, or_self, if_false, known]

/-- A name without an entry leads nowhere. -/
theorem follow_missing (named : Names part)
    (missing : entries.lookup (String.ofList part) = none) (above : List FileNode) :
    (directory entries).follow above (part :: parts) = .error .notFound := by
  obtain ⟨notEmpty, notHere, notUp⟩ := named
  rw [follow.eq_def]
  simp only [notEmpty, notHere, notUp, or_self, if_false, missing]

/-- A part without a name leads nowhere else. -/
theorem follow_of_skipped (skipped : part = [] ∨ part = ['.']) (above : List FileNode) :
    (directory entries).follow above (part :: parts) = (directory entries).follow above parts := by
  rw [follow.eq_def]
  simp only [skipped, if_true]

/-- Behind a name that leads somewhere there is a directory with an entry of that name. -/
theorem exists_of_follow (named : Names part)
    (leads : node.follow above (part :: parts) = .ok inner) :
    ∃ entries found, node = .directory entries ∧ entries.lookup (String.ofList part) = some found ∧
      found.follow (node :: above) parts = .ok inner := by
  cases node with
  | file text => simp [follow] at leads
  | directory entries =>
    cases known : entries.lookup (String.ofList part) with
    | none => simp [follow_missing named known] at leads
    | some found =>
      rw [follow_name named known] at leads
      exact ⟨entries, found, rfl, known, leads⟩

/-- Where names lead does not depend on the directories above. -/
theorem follow_congr (named : ∀ part ∈ names, Names part) (above other : List FileNode) :
    node.follow above names = node.follow other names := by
  induction names generalizing node above other with
  | nil => rfl
  | cons name names ih =>
    cases node with
    | file text => simp [follow]
    | directory entries =>
      have first := named name List.mem_cons_self
      cases known : entries.lookup (String.ofList name) with
      | none => rw [follow_missing first known, follow_missing first known]
      | some inner =>
        rw [follow_name first known, follow_name first known]
        exact ih (fun part mem => named part (List.mem_cons_of_mem _ mem)) _ _

/-- The names of a file lead through directories. -/
theorem follow_append (named : ∀ part ∈ trail, Names part) (namesLast : Names name)
    (leads : node.follow above (trail ++ [name]) = .ok inner) :
    ∃ entries, node.follow above trail = .ok (.directory entries) := by
  induction trail generalizing node above with
  | nil =>
    obtain ⟨entries, _, rfl, -⟩ := exists_of_follow namesLast leads
    exact ⟨entries, rfl⟩
  | cons part trail ih =>
    have first := named part List.mem_cons_self
    obtain ⟨entries, found, rfl, known, further⟩ := exists_of_follow first leads
    obtain ⟨last, led⟩ := ih (fun part mem => named part (List.mem_cons_of_mem _ mem)) further
    exact ⟨last, by rw [follow_name first known]; exact led⟩

/-- What writing below a directory does: it puts the file there, or it writes below a directory that
is there. -/
theorem write_cases (done : write text (name :: names) entries = .ok written) :
    names = [] ∧ (∀ inner, entries.lookup (String.ofList name) ≠ some (.directory inner)) ∧
        written = put (String.ofList name) (.file text) entries ∨
      ∃ inner after, names ≠ [] ∧
        entries.lookup (String.ofList name) = some (.directory inner) ∧
        write text names inner = .ok after ∧
        written = put (String.ofList name) (.directory after) entries := by
  cases names with
  | nil =>
    rw [write] at done
    split at done
    · simp at done
    · next notDirectory =>
      exact .inl ⟨rfl, fun inner known => notDirectory inner known, by simpa using done.symm⟩
  | cons second names =>
    rw [write] at done
    · split at done
      · simp at done
      · simp at done
      · next inner known =>
        cases further : write text (second :: names) inner with
        | error fault => simp [further] at done
        | ok after =>
          exact .inr ⟨inner, after, by simp, known, further, by simpa [further] using done.symm⟩
    · simp

/-- The file is there when it has been written. -/
theorem follow_of_write (named : ∀ part ∈ names, Names part)
    (done : write text names top = .ok written) :
    (directory written).follow above names = .ok (.file text) := by
  induction names generalizing top written above with
  | nil => simp [write] at done
  | cons name names ih =>
    have first := named name List.mem_cons_self
    obtain ⟨rfl, -, rfl⟩ | ⟨inner, after, -, -, further, rfl⟩ := write_cases done
    · rw [follow_name first (lookup_put_self _ _ _), follow]
    · rw [follow_name first (lookup_put_self _ _ _)]
      exact ih (fun part mem => named part (List.mem_cons_of_mem _ mem)) further

/-- The directory of a file that has been written was there. -/
theorem directory_of_write (named : ∀ part ∈ trail, Names part)
    (done : write text (trail ++ [name]) top = .ok written) :
    ∃ entries, (directory top).follow above trail = .ok (.directory entries) := by
  induction trail generalizing top written above with
  | nil => exact ⟨top, rfl⟩
  | cons part trail ih =>
    obtain ⟨none, -⟩ | ⟨inner, after, -, known, further, -⟩ := write_cases done
    · simp at none
    · rw [follow_name (named part List.mem_cons_self) known]
      exact ih (fun part mem => named part (List.mem_cons_of_mem _ mem)) further

/-- A directory stays one when a file is written. -/
theorem directory_stays (named : ∀ part ∈ trail, Names part)
    (done : write text names top = .ok written)
    (led : (directory top).follow above trail = .ok (.directory entries)) :
    ∃ after, (directory written).follow above trail = .ok (.directory after) := by
  induction trail generalizing names top written above with
  | nil => exact ⟨written, rfl⟩
  | cons part trail ih =>
    have first := named part List.mem_cons_self
    have later : ∀ part ∈ trail, Names part :=
      fun part mem => named part (List.mem_cons_of_mem _ mem)
    obtain ⟨_, found, same, known, further⟩ := exists_of_follow first led
    obtain rfl := directory.inj same
    cases names with
    | nil => simp [write] at done
    | cons name names =>
      -- The entry behind the first part is the one that is written below, or it is left as it is.
      by_cases met : String.ofList part = String.ofList name
      · rw [met] at known
        obtain ⟨rfl, noDirectory, rfl⟩ | ⟨inner, after, -, there, below, rfl⟩ := write_cases done
        · cases found with
          | directory inner => exact absurd known (noDirectory inner)
          | file old => cases trail <;> simp [follow] at further
        · obtain rfl : found = .directory inner := by simpa [known] using there
          rw [follow_congr later _ []] at further
          obtain ⟨last, stays⟩ := ih later below further
          rw [follow_name first (by rw [met]; exact lookup_put_self _ _ _), follow_congr later _ []]
          exact ⟨last, stays⟩
      · have left : written.lookup (String.ofList part) = some found := by
          obtain ⟨-, -, rfl⟩ | ⟨_, _, -, -, -, rfl⟩ := write_cases done <;>
            rw [lookup_put_of_ne met, known]
        rw [follow_name first left, follow_congr later _ _]
        exact ⟨entries, further⟩

/-- A node that names lead to, with the directories on the way, the nearest first. -/
inductive Reached (top : List (String × FileNode)) :
    List (List Char) → FileNode → List FileNode → Prop
  | here : Reached top [] (.directory top) []
  | enter {trail : List (List Char)} {entries : List (String × FileNode)} {above : List FileNode}
      {name : List Char} {node : FileNode} (reached : Reached top trail (.directory entries) above)
      (named : Names name) (known : entries.lookup (String.ofList name) = some node) :
    Reached top (name :: trail) node (.directory entries :: above)

/-- A path goes on from what its front leads to. -/
theorem Reached.follow (reached : Reached top trail node above) (parts : List (List Char)) :
    (directory top).follow [] (trail.reverse ++ parts) = node.follow above parts := by
  induction reached generalizing parts with
  | here => rfl
  | enter reached named known ih =>
    rw [List.reverse_cons, List.append_assoc, ih, List.singleton_append, follow_name named known]

/-- A part that is skipped, or a step up, or a name. -/
theorem skipped_or_up_or_names (part : List Char) :
    (part = [] ∨ part = ['.']) ∨ part = ['.', '.'] ∨ Names part := by
  unfold Names
  tauto

/-- A part without a name is left out of the names on the way. -/
theorem names_of_skipped (skipped : part = [] ∨ part = ['.']) :
    FileNode.names top trail (part :: parts) = FileNode.names top trail parts := by
  rw [FileNode.names.eq_def]
  simp only [skipped, if_true]

/-- A name is added to the names on the way. -/
theorem names_of_names (named : Names part) :
    FileNode.names top trail (part :: parts) = FileNode.names top (part :: trail) parts := by
  obtain ⟨notEmpty, notHere, notUp⟩ := named
  rw [FileNode.names.eq_def]
  simp only [notEmpty, notHere, notUp, or_self, if_false]

/-- A step up takes the last name back, which is the name of a directory. -/
theorem names_of_up (found : FileNode.names top trail (['.', '.'] :: parts) = .ok names) :
    ∃ entries name front, trail = name :: front ∧
      (directory top).follow [] trail.reverse = .ok (.directory entries) ∧
      FileNode.names top front parts = .ok names := by
  rw [FileNode.names.eq_def] at found
  simp only [reduceCtorEq, List.cons.injEq, and_false, or_self, if_false, if_true] at found
  split at found
  · next led => exact ⟨_, _, _, rfl, led, found⟩
  all_goals simp at found

/-- What does not end in a step does not end in one behind its first part. -/
theorem lastNames_tail (lastNames : ∀ last ∈ (part :: parts).getLast?, Names last) :
    ∀ last ∈ parts.getLast?, Names last := by
  cases parts with
  | nil => simp
  | cons second parts => simpa [List.getLast?_cons_cons] using lastNames

section Written

variable (named : ∀ part ∈ trail, Names part) (done : write text names top = .ok written)
  (lastNames : ∀ part ∈ parts.getLast?, Names part)
  (found : FileNode.names top trail parts = .ok names)

include named done lastNames found

/-- A path that does not end in a step goes on from a directory. -/
theorem directory_of_names (further : parts ≠ []) :
    ∃ entries, (directory top).follow [] trail.reverse = .ok (.directory entries) := by
  induction parts generalizing trail with
  | nil => exact absurd rfl further
  | cons part parts ih =>
    have later := lastNames_tail lastNames
    obtain skipped | rfl | namesPart := skipped_or_up_or_names part
    · have more : parts ≠ [] := by
        rintro rfl
        obtain ⟨notEmpty, notHere, -⟩ := lastNames part (by simp)
        exact skipped.elim notEmpty notHere
      rw [names_of_skipped skipped] at found
      exact ih named later found more
    · obtain ⟨entries, -, -, -, led, -⟩ := names_of_up found
      exact ⟨entries, led⟩
    · rw [names_of_names namesPart] at found
      have all : ∀ name ∈ part :: trail, Names name := by simpa using ⟨namesPart, named⟩
      have backward : ∀ name ∈ trail.reverse, Names name := by simpa using named
      by_cases more : parts = []
      · subst more
        obtain rfl : (part :: trail).reverse = names := by simpa [FileNode.names] using found
        rw [List.reverse_cons] at done
        exact directory_of_write backward done
      · obtain ⟨entries, led⟩ := ih all later found more
        rw [List.reverse_cons] at led
        exact follow_append backward namesPart led

/-- A path leads to the file that has been written at it, from each node on the way. -/
theorem Reached.follow_written (reached : Reached written trail node above) :
    node.follow above parts = .ok (.file text) := by
  -- The names passed so far lead to the node in the tree with the file.
  induction parts generalizing trail node above with
  | nil =>
    obtain rfl : trail.reverse = names := by simpa [FileNode.names] using found
    have backward : ∀ name ∈ trail.reverse, Names name := by simpa using named
    rw [← reached.follow [], List.append_nil]
    exact follow_of_write backward done
  | cons part parts ih =>
    obtain ⟨old, was⟩ := directory_of_names named done lastNames found (by simp)
    have backward : ∀ name ∈ trail.reverse, Names name := by simpa using named
    obtain ⟨entries, leads⟩ := directory_stays backward done was
    obtain rfl : node = .directory entries := by
      have same := reached.follow []
      rw [List.append_nil, leads] at same
      simpa [FileNode.follow] using same.symm
    have later := lastNames_tail lastNames
    obtain skipped | rfl | namesPart := skipped_or_up_or_names part
    · rw [names_of_skipped skipped] at found
      rw [follow_of_skipped skipped]
      exact ih named later found reached
    · obtain ⟨-, name, front, rfl, -, found⟩ := names_of_up found
      cases reached with
      | enter reached _ _ => exact ih (fun part mem => named part (.tail _ mem)) later found reached
    · rw [names_of_names namesPart] at found
      have all : ∀ name ∈ part :: trail, Names name := by simpa using ⟨namesPart, named⟩
      have allBackward : ∀ name ∈ (part :: trail).reverse, Names name :=
        fun name mem => all name (List.mem_reverse.mp mem)
      obtain ⟨inner, led⟩ :
          ∃ inner, (directory written).follow [] (part :: trail).reverse = .ok inner := by
        by_cases more : parts = []
        · subst more
          obtain rfl : (part :: trail).reverse = names := by simpa [FileNode.names] using found
          exact ⟨_, follow_of_write allBackward done⟩
        · obtain ⟨_, was⟩ := directory_of_names all done later found more
          obtain ⟨entries, stays⟩ := directory_stays allBackward done was
          exact ⟨_, stays⟩
      rw [List.reverse_cons, reached.follow] at led
      obtain ⟨_, inner, same, known, -⟩ := exists_of_follow namesPart led
      obtain rfl := directory.inj same
      rw [follow_name namesPart known]
      exact ih all later found (.enter reached namesPart known)

end Written

/-- What is written below a directory is found there. -/
theorem follow_of_writeFile (done : writeFile text parts top = .ok written) :
    (directory written).follow [] parts = .ok (.file text) := by
  rw [writeFile] at done
  split at done
  · split at done <;> simp at done
    split at done <;> simp at done
  · next ends =>
    cases found : FileNode.names top [] parts with
    | error fault => simp [found] at done
    | ok names =>
      have lastNames : ∀ part ∈ parts.getLast?, Names part := by
        intro part last
        rw [Option.mem_def.mp last] at ends
        simpa [Names] using ends
      exact Reached.follow_written (by simp) (by simpa [found] using done) lastNames found .here

end FileNode

namespace FileTree

/-- A tree has the entries that one of its directories is given. -/
@[simp]
theorem entries_withEntries (tree : FileTree) (place : Place) (entries : List (String × FileNode)) :
    (tree.withEntries place entries).entries place = entries := by
  cases place <;> rfl

/-- Paths lead on from the same directories, whatever is in them. -/
@[simp]
theorem route?_withEntries (tree : FileTree) (place : Place) (entries : List (String × FileNode)) :
    (tree.withEntries place entries).route? = tree.route? := by
  cases place <;> rfl

/-- What has been written at a path is read there. -/
theorem read_of_write {tree after : FileTree} {path text : String}
    (done : tree.write path text = .ok after) : after.files.read path = .ok text := by
  rw [write] at done
  cases route : tree.route? path with
  | none => simp [route] at done
  | some way =>
    obtain ⟨place, parts⟩ := way
    cases below : FileNode.writeFile text parts (tree.entries place) with
    | error fault => simp [route, below] at done
    | ok entries =>
      obtain rfl : tree.withEntries place entries = after := by simpa [route, below] using done
      simp [files, look, route, FileNode.follow_of_writeFile below]

end FileTree

end MatlabFront
