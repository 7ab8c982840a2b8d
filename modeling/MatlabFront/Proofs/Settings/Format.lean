import MatlabFront.Settings.File

/-!
# The formats of a settings file

The path of a settings file says the formats in which its text is read. The first of them in which it
says settings counts, and where there is none the file is malformed. The writer has a table of its own.
Whatever the extension, the format that it chooses is the first in which the file is read.
-/

namespace MatlabFront

/-- What succeeds when its refusals are worded otherwise succeeds as it is. -/
@[simp]
theorem mapError_eq_ok_iff {ε ε' α : Type} {result : Except ε α} {word : ε → ε'} {value : α} :
    result.mapError word = .ok value ↔ result = .ok value := by
  cases result with
  | error => exact iff_of_false nofun nofun
  | ok other =>
    have kept : (Except.ok other).mapError word = .ok other := rfl
    rw [kept, Except.ok.injEq, Except.ok.injEq]

namespace SettingsFormat

/-- The formats in which the text of a file is read, the first to be tried first. -/
def tried (path : String) : List SettingsFormat :=
  match ofExtension? (Path.extension? path) with
  | some format => [format]
  | none => [yaml, json]

/-- The writer follows the reader where an extension says a format, and writes YAML elsewhere. -/
theorem forExtension_eq (extension : Option String) :
    forExtension extension = (ofExtension? extension).getD yaml := by
  unfold ofExtension? forExtension
  split <;> split <;> simp_all

/-- A file is written in the first of the formats in which it is read. -/
theorem head?_tried (path : String) :
    (tried path).head? = some (forExtension (Path.extension? path)) := by
  rw [forExtension_eq, tried]
  cases ofExtension? (Path.extension? path) <;> rfl

end SettingsFormat

namespace Settings

open SettingsFormat

variable {codecs : SettingsCodecs} {path text : String}

/-- The settings that the first format of a file reads are those of its text. -/
theorem ofText_of_read {format : SettingsFormat} {others : List SettingsFormat} {settings : Settings}
    (order : tried path = format :: others) (read : (codecs format).read text = .ok settings) :
    ofText codecs path text = .ok settings := by
  rw [tried] at order
  rw [ofText]
  cases said : ofExtension? (Path.extension? path) with
  | some own =>
    rw [said] at order
    obtain rfl : own = format := (List.cons.inj order).1
    simp [read]
  | none =>
    rw [said] at order
    obtain rfl : yaml = format := (List.cons.inj order).1
    simp [read]

variable {files : Files}

/-- The settings of a file that can be read are those of its text. -/
theorem ofFile_of_read (readable : files.read path = .ok text) :
    ofFile codecs files path = ofText codecs path text := by
  simp only [ofFile, readable]

end Settings

end MatlabFront
