import CalendarStamp.Configuration.File
import CalendarStamp.Proofs.SettingsDocuments
import CalendarStamp.Proofs.SettingsLayout
import Mathlib

/-!
# Settings that were saved

Settings come back from the file that they were saved to, whatever the calendars are
called.  The file gives the list of calendars and the waiting time, and the reader finds
each of them by its name.  Only the waiting time can be in the way: the format has no
whole numbers from 2 ^ 63 on, so settings with such a time are refused before any file
is touched.

Main results:

- Theorem `read_write`: settings are read from their text.
- Theorem `load_after_save`: settings are lost neither in the file nor on the way.
-/

namespace CalendarStamp.Configuration

open Outcome

/-! ## Reading what was written -/

/-- A list of texts has these texts for its items. -/
theorem textItems?_map (texts : List String) : textItems? (texts.map .text) = some texts := by
  induction texts with
  | nil => rfl
  | cons text texts ih =>
    rw [textItems?] at ih ⊢
    rw [List.map_cons, List.mapM_cons, ih]
    rfl

/-- The text of settings gives two names a value, if the waiting time is in range. -/
theorem toList_of_write {configuration : Configuration} {text : String}
    (h : configuration.write = some text) :
    configuration.timeoutSecs.toNat < Toml.integerLimit ∧
      text.toList = "calendars".toList ++ ' ' :: '=' :: ' ' ::
        (Toml.writeTexts configuration.calendars ++ '\n' :: ("timeout_secs".toList ++
          ' ' :: '=' :: ' ' :: (Toml.writeNatural configuration.timeoutSecs.toNat ++ ['\n']))) := by
  by_cases hlimit : configuration.timeoutSecs.toNat < Toml.integerLimit
  · rw [write, if_pos hlimit, Option.some_inj] at h
    refine ⟨hlimit, ?_⟩
    rw [← h]
    simp
  · rw [write, if_neg hlimit] at h
    contradiction

/-- The lines that stand for settings. -/
def lines (configuration : Configuration) : List Toml.Line :=
  [.pair ["calendars"] (.array (configuration.calendars.map .text)),
    .pair ["timeout_secs"] (.integer configuration.timeoutSecs.toNat)]

/-- The text of settings is read as two lines. -/
theorem readLines_of_write {configuration : Configuration} {text : String}
    (h : configuration.write = some text) :
    Toml.readLines text.toList = some configuration.lines := by
  rcases toList_of_write h with ⟨hlimit, htext⟩
  have hcalendars : Toml.IsPlainName "calendars".toList := by
    simp [Toml.IsPlainName, Toml.isNameChar]
  have htimeout : Toml.IsPlainName "timeout_secs".toList := by
    simp [Toml.IsPlainName, Toml.isNameChar]
  have hbreak : ∀ c, ['\n'].head? = some c → Toml.isWordChar c = false := by
    simp [Toml.isWordChar]
  rw [htext, Toml.readLines_pair hcalendars (Toml.isSpace_head?_writeTexts _)
      (Toml.readValue_writeTexts _ _ _),
    Toml.readLines_pair htimeout (Toml.isSpace_head?_writeNatural _)
      (Toml.readValue_writeNatural hlimit _ hbreak), Toml.readLines_nil]
  simp [lines]

/-- The table that stands for settings. -/
def table (configuration : Configuration) : Toml.Table :=
  [("calendars", .value (.array (configuration.calendars.map .text))),
    ("timeout_secs", .value (.integer configuration.timeoutSecs.toNat))]

/-- The two lines are taken in one after the other. -/
theorem ofLines_lines (configuration : Configuration) :
    Toml.ofLines configuration.lines = some configuration.table := by
  have hfirst : Toml.assign (.array (configuration.calendars.map .text)) ["calendars"] [] =
      some [("calendars", .value (.array (configuration.calendars.map .text)))] :=
    Toml.assign_of_lookup_none rfl _
  have hsecond : Toml.assign (.integer configuration.timeoutSecs.toNat) ["timeout_secs"]
      [("calendars", .value (.array (configuration.calendars.map .text)))] =
      some configuration.table :=
    Toml.assign_of_lookup_none rfl _
  simp only [Toml.ofLines, lines, List.foldlM_cons, List.foldlM_nil, Toml.takeLine, Toml.inside,
    hfirst, Option.map_eq_map, Option.map_some, Option.bind_eq_bind, Option.bind_some, hsecond]
  rfl

/-- The text of settings is read as a table. -/
theorem read_table {configuration : Configuration} {text : String}
    (h : configuration.write = some text) : Toml.read text = some configuration.table := by
  have hmark : text.toList.head? ≠ some '\ufeff' := by
    rw [(toList_of_write h).2]
    simp
  rw [Toml.read, if_neg hmark, readLines_of_write h]
  exact ofLines_lines configuration

/-- Settings are read from their text. -/
theorem read_write {configuration : Configuration} {text : String}
    (h : configuration.write = some text) : read text = some configuration := by
  have hcalendars : calendarsOf (configuration.table.lookup "calendars") =
      some configuration.calendars := textItems?_map _
  have htimeout : timeoutOf (configuration.table.lookup "timeout_secs") =
      some configuration.timeoutSecs := by
    have hentry : configuration.table.lookup "timeout_secs" =
        some (.value (.integer configuration.timeoutSecs.toNat)) := rfl
    simp [hentry, timeoutOf]
  simp only [read, read_table h, Option.bind_eq_bind, Option.bind_some, hcalendars, htimeout]
  rfl

/-! ## Files -/

/-- Settings that can be written are saved under a name that leads to a place for a file. -/
theorem save_eq_ok {configuration : Configuration} {text : String} {tree : FileTree} {name : String}
    {target : List String} (hwrite : configuration.write = some text)
    (hplace : tree.place name = .ok target) :
    configuration.save tree name = .ok (tree.setContent target (Utf8.encode text)) := by
  rw [save_of_some hwrite, FileTree.write_eq, hplace]
  rfl

/-- Settings that were saved are read and loaded from the same name. -/
theorem load_save {configuration : Configuration} {text : String} {tree saved : FileTree}
    {name : String} (hwrite : configuration.write = some text)
    (hsave : configuration.save tree name = .ok saved) :
    saved.readText name = .ok text ∧ load saved name none = .ok configuration := by
  rw [save_of_some hwrite] at hsave
  have hread := FileTree.read_write (mapError_eq_ok.mp hsave)
  have htext : saved.readText name = .ok text := by
    rw [FileTree.readText, hread]
    simp
  refine ⟨htext, ?_⟩
  rw [load, htext]
  simp [read_write hwrite, withEnvironment]

/-- The files after settings were saved, or could not be. -/
def filesAfterSave (configuration : Configuration) (tree : FileTree) (name : String) : FileTree :=
  ((configuration.saving name).apply tree).2

/-- Settings with a waiting time below 2 ^ 63 are saved line by line and loaded as they were.
With a longer one they are refused, and all files stay as they are. -/
theorem load_after_save (configuration : Configuration) :
    (configuration.timeoutSecs.toNat < 2 ^ 63 →
      ∀ (tree : FileTree) (name : String) (target : List String), tree.place name = .ok target →
        ∃ saved, configuration.save tree name = .ok saved ∧
          saved.readText name = .ok configuration.prettyText ∧
          load saved name none = .ok configuration) ∧
    (2 ^ 63 ≤ configuration.timeoutSecs.toNat → ∀ (tree : FileTree) (name : String),
      configuration.save tree name = .error .unwritable ∧
        configuration.filesAfterSave tree name = tree) := by
  have hlimit : Toml.integerLimit = 2 ^ 63 := Nat.one_shiftLeft 63
  rw [← hlimit]
  constructor
  · intro h tree name target hplace
    have hsave := save_eq_ok (write_eq h) hplace
    exact ⟨_, hsave, load_save (write_eq h) hsave⟩
  · intro h tree name
    have hsave : configuration.save tree name = .error .unwritable :=
      save_of_none (if_neg (Nat.not_lt.mpr h)) tree name
    refine ⟨hsave, ?_⟩
    have hfails : (configuration.saving name).attempt tree = .error .unwritable :=
      map_eq_error.mp hsave
    exact congrArg Prod.snd ((configuration.atomic_saving name).apply_of_error hfails)

/-- Addresses with quotes and control characters come back, with the longest waiting
time that can be written. -/
theorem load_after_save_withQuotes :
    ∃ saved,
      save ⟨["", "\"'\"", "a\\b\n'''", "\x07\u0085"], 9223372036854775807⟩ (.fresh ["home"])
          "sst.toml" = .ok saved ∧
        load saved "sst.toml" none =
          .ok ⟨["", "\"'\"", "a\\b\n'''", "\x07\u0085"], 9223372036854775807⟩ ∧
        save ⟨["a"], 9223372036854775808⟩ saved "sst.toml" = .error .unwritable := by
  have hplace : (FileTree.fresh ["home"]).place "sst.toml" = .ok ["home", "sst.toml"] := by
    decide
  rcases (load_after_save ⟨["", "\"'\"", "a\\b\n'''", "\x07\u0085"], 9223372036854775807⟩).1
    (by decide) _ _ _ hplace with ⟨saved, hsave, _, hload⟩
  exact ⟨saved, hsave, hload, ((load_after_save ⟨["a"], 9223372036854775808⟩).2 (by decide) saved
    "sst.toml").1⟩

end CalendarStamp.Configuration
