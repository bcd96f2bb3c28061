import CalendarStamp.Configuration
import CalendarStamp.FileTree

/-!
# Settings files

Loading settings from a file and saving them to one, with the reasons why that
can fail.

Main results:

- Theorem `atomic_saving`: settings that cannot be saved leave all files as they were.
-/

namespace CalendarStamp

/-- Why settings cannot be loaded or saved. -/
inductive ConfigurationError
  /-- The file cannot be read. -/
  | unreadable (name : String) (cause : FileError)
  /-- The file does not hold settings. -/
  | invalid
  /-- The settings have no written form. -/
  | unwritable
  /-- The file cannot be written. -/
  | unsaved (name : String) (cause : FileError)
deriving DecidableEq

/-- The sentence that reports the error. -/
def ConfigurationError.message : ConfigurationError → String
  | unreadable name cause =>
    "Configuration error: Failed to read " ++ name ++ ": " ++ cause.message
  | invalid => "Configuration error: Invalid config: the text holds no settings"
  | unwritable => "Configuration error: Failed to serialize config: the timeout is out of range"
  | unsaved name cause =>
    "Configuration error: Failed to write " ++ name ++ ": " ++ cause.message

namespace Configuration

/-- Load settings from a file and apply the list of the environment. -/
def load (tree : FileTree) (name : String) (list : Option String) :
    Except ConfigurationError Configuration := do
  let text ← (tree.readText name).mapError (.unreadable name)
  match read text with
  | some configuration => return configuration.withEnvironment list
  | none => throw .invalid

open Change Outcome

/-- Save settings to a file.  They are written out before the file is touched. -/
def saving (configuration : Configuration) (name : String) :
    Change FileTree ConfigurationError Unit :=
  match configuration.write with
  | some text => (FileTree.writing name (Utf8.encode text)).mapError (.unsaved name)
  | none => throw .unwritable

/-- Settings that cannot be saved leave all files as they were. -/
theorem atomic_saving (configuration : Configuration) (name : String) :
    Atomic id (configuration.saving name) := by
  unfold saving
  split
  · exact (FileTree.atomic_writing name _).mapError _
  · exact (steady_throw _).atomic

/-- The files after settings were saved. -/
def save (configuration : Configuration) (tree : FileTree) (name : String) :
    Except ConfigurationError FileTree :=
  Prod.snd <$> (configuration.saving name).attempt tree

theorem save_of_some {configuration : Configuration} {text : String}
    (h : configuration.write = some text) (tree : FileTree) (name : String) :
    configuration.save tree name =
      (tree.write name (Utf8.encode text)).mapError (.unsaved name) := by
  rw [save, saving, h]
  simp only [attempt_mapError, FileTree.write]
  cases (FileTree.writing name (Utf8.encode text)).attempt tree <;> rfl

theorem save_of_none {configuration : Configuration} (h : configuration.write = none)
    (tree : FileTree) (name : String) : configuration.save tree name = .error .unwritable := by
  rw [save, saving, h]
  rfl

end Configuration

end CalendarStamp
