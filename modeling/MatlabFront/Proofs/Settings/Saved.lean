import MatlabFront.Proofs.Files.Written
import MatlabFront.Proofs.Settings.Format
import MatlabFront.Proofs.Settings.ReadBack

/-!
# Settings that have been saved

Settings are saved in the format that the writer's table has for the path of their file. The reader goes
by a table of its own and may try two formats, but the one that the writer chooses is always the first
that it tries. So the settings that are loaded from a file are those that have been saved in it, by any
codecs each of which reads back what it has written.
-/

namespace MatlabFront

namespace Settings

open SettingsFormat

variable {codecs : SettingsCodecs} {settings : Settings} {path text : String}

/-- The text under which settings are saved says them, whatever the path of the file. -/
theorem ofText_of_toText (readsBack : ∀ format, (codecs format).ReadsBack)
    (written : settings.toText codecs path = .ok text) : ofText codecs path text = .ok settings := by
  obtain ⟨format, order⟩ : ∃ format, forExtension (Path.extension? path) = format := ⟨_, rfl⟩
  have first := head?_tried path
  rw [order] at first
  obtain ⟨others, tries⟩ := List.head?_eq_some_iff.mp first
  refine ofText_of_read tries (readsBack format settings text ?_)
  simpa [toText, order] using written

/-- Settings that could be saved have a text, and it could be written. -/
theorem exists_of_save {α : Type} {write : String → String → Except FileFault α} {after : α}
    (saved : settings.save codecs path write = .ok after) :
    ∃ text, settings.toText codecs path = .ok text ∧ write path text = .ok after := by
  rw [save] at saved
  cases written : settings.toText codecs path with
  | error fault => simp [written] at saved
  | ok text => exact ⟨text, rfl, by simpa [written] using saved⟩

/-- The settings that have been saved in a file are loaded from it. -/
theorem ofFile_of_saved {tree after : FileTree} (readsBack : ∀ format, (codecs format).ReadsBack)
    (saved : settings.save codecs path tree.write = .ok after) :
    ofFile codecs after.files path = .ok settings := by
  obtain ⟨text, written, kept⟩ := exists_of_save saved
  rw [ofFile_of_read (FileTree.read_of_write kept)]
  exact ofText_of_toText readsBack written

/-- Each format is chosen by an extension and comes back. An extension in upper case says no format, and
a name that begins with its only dot has no extension, so that both are written as YAML. The last path
goes through a directory that it leaves again. -/
theorem ofFile_of_saved_formats :
    let tree : FileTree := ⟨"work", [("d", .directory [])], "home", []⟩
    let settings := { default with level := .trace }
    let comesBack := fun path format =>
      settings.toText .builtIn path = .ok (SettingsFormat.write format settings) ∧
        ∃ after, settings.save .builtIn path tree.write = .ok after ∧
          ofFile .builtIn after.files path = .ok settings
    comesBack "s.json" .json ∧ comesBack "d/s.toml" .toml ∧ comesBack "s.yml" .yaml ∧
      comesBack ".toml" .yaml ∧ comesBack "d/../S.JSON" .yaml := by
  intro tree settings comesBack
  have loads {path : String} {format : SettingsFormat}
      (chosen : forExtension (Path.extension? path) = format)
      (saves : (settings.save .builtIn path tree.write).isOk = true) : comesBack path format := by
    refine ⟨by rw [toText, chosen]; rfl, ?_⟩
    cases saved : settings.save .builtIn path tree.write with
    | error fault => simp [saved, Except.isOk, Except.toBool] at saves
    | ok after => exact ⟨after, rfl, ofFile_of_saved SettingsCodecs.readsBack_builtIn saved⟩
  refine ⟨loads ?_ ?_, loads ?_ ?_, loads ?_ ?_, loads ?_ ?_, loads ?_ ?_⟩ <;> decide +kernel

end Settings

end MatlabFront
