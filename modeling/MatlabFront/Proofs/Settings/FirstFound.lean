import MatlabFront.Proofs.Settings.Format
import MatlabFront.Proofs.Settings.Override
import MatlabFront.Settings.BuiltIn
import MatlabFront.Settings.Search
import Mathlib.Control.Monad.Basic

/-!
# The settings file that counts

Settings are loaded from the first candidate that is there. No other file matters: not those behind it,
which need not even be the same from one run to the next, and not those that could take its place when
it cannot be read. Whatever is loaded, or the defaults where no candidate is there, is overridden by the
variables.
-/

namespace MatlabFront.Settings

open SettingsFormat

variable {codecs : SettingsCodecs} {files other : Files} {environment : Environment} {path : String}
  {before : List String}

/-- A path is the first candidate at which something is there, behind some candidates at which there is
nothing. -/
structure FirstBehind (files : Files) (environment : Environment) (before : List String)
    (path : String) : Prop where
  searched : before ++ [path] <+: candidates environment
  absent : ∀ other ∈ before, files.present other = false
  present : files.present path = true

/-- Some files agree with others up to a candidate: something is at the same candidates, and the last
one is the same. -/
structure Agrees (files other : Files) (before : List String) (path : String) : Prop where
  present : ∀ candidate ∈ before ++ [path], other.present candidate = files.present candidate
  read : other.read path = files.read path

/-- The first candidate that is there is the one whose file is taken. -/
theorem FirstBehind.ofCandidates (first : FirstBehind files environment before path) :
    ofCandidates codecs files (candidates environment) = ofFile codecs files path := by
  obtain ⟨after, searched⟩ := first.searched
  have none : before.find? files.present = none :=
    List.find?_eq_none.mpr fun other inside => by simp [first.absent other inside]
  have found : (candidates environment).find? files.present = some path := by
    rw [← searched, List.append_assoc, List.find?_append, none, Option.none_or, List.singleton_append,
      List.find?_cons_of_pos first.present]
  rw [Settings.ofCandidates, found]

/-- A first candidate with these files is one with files that agree with them up to it. -/
theorem FirstBehind.congr (first : FirstBehind files environment before path)
    (agrees : Agrees files other before path) : FirstBehind other environment before path where
  searched := first.searched
  absent candidate inside := by
    rw [agrees.present candidate (List.mem_append_left [path] inside), first.absent candidate inside]
  present := by rw [agrees.present path (by simp), first.present]

end MatlabFront.Settings
