import CalendarStamp.Configuration
import Mathlib.Data.List.DropRight

/-!
# Lists of calendars

The environment names calendars in one text with commas in between.  Blanks may
stand around each of them, and parts that hold nothing but blanks are passed over.
What can be named so is a text that has no comma and neither begins nor ends with a
blank.  Each text lists exactly one sequence of such names.  If it is the empty
sequence, the settings keep the calendars that they had.

Main results:

- Theorem `split_intercalate`: parts that are joined with separators are split again.
- Theorem `trim_padded`: blanks around a name are taken away.
- Theorem `lists_iff`: the calendars that a text lists.
- Theorem `withCalendarList_lists`: settings after a list from the environment.
-/

namespace CalendarStamp

namespace Text

/-! ## Parts -/

/-- A text is split at each separator and nowhere else. -/
theorem split_eq_splitOn {α : Type} [DecidableEq α] (separator : α) (text : List α) :
    split separator text = text.splitOn separator := by
  rw [List.splitOn_eq_splitOnP]
  induction text with
  | nil => rfl
  | cons c rest ih =>
    rw [List.splitOnP_cons_eq_if_modifyHead, ← ih, split]
    by_cases hc : c = separator
    · simp [hc]
    · rcases List.exists_cons_of_ne_nil (split_ne_nil separator rest) with ⟨part, parts, hparts⟩
      simp [hc, hparts]

/-- A text without separators is its only part. -/
theorem split_eq_singleton {α : Type} [DecidableEq α] {separator : α} {text : List α}
    (h : separator ∉ text) : split separator text = [text] := by
  rw [split_eq_splitOn, List.splitOn_eq_singleton h]

/-- Parts that are joined with separators are split again. -/
theorem split_intercalate {α : Type} [DecidableEq α] {separator : α} {parts : List (List α)}
    (hparts : ∀ part ∈ parts, separator ∉ part) (hne : parts ≠ []) :
    split separator ([separator].intercalate parts) = parts := by
  rw [split_eq_splitOn, List.splitOn_intercalate separator hparts hne]

/-- The characters in the parts are those of the text without the separators. -/
theorem forall_mem_split_iff {α : Type} [DecidableEq α] {separator : α} {text : List α}
    {p : α → Prop} :
    (∀ part ∈ split separator text, ∀ c ∈ part, p c) ↔ ∀ c ∈ text, c = separator ∨ p c := by
  induction text with
  | nil => simp [split]
  | cons c rest ih =>
    rw [List.forall_mem_cons, ← ih, split]
    by_cases hc : c = separator
    · simp [hc]
    · rcases List.exists_cons_of_ne_nil (split_ne_nil separator rest) with ⟨part, parts, hparts⟩
      simp [hc, hparts, and_assoc]

/-- No part has a separator in it. -/
theorem not_mem_of_mem_split {α : Type} [DecidableEq α] {separator : α} {text part : List α}
    (h : part ∈ split separator text) : separator ∉ part := fun hmem =>
  forall_mem_split_iff.mpr (fun c _ => Classical.em (c = separator)) part h separator hmem rfl

/-! ## Blanks around a name -/

/-- Whether a text holds nothing but blanks. -/
def IsBlank (text : List Char) : Prop :=
  ∀ c ∈ text, isBlank c = true

/-- Whether a text begins and ends with characters that are not blanks. -/
structure IsBare (text : List Char) : Prop where
  ne_nil : text ≠ []
  head : ∀ c, text.head? = some c → isBlank c = false
  last : ∀ c, text.getLast? = some c → isBlank c = false

theorem trim_eq_rdropWhile (text : List Char) :
    trim text = (text.dropWhile isBlank).rdropWhile isBlank :=
  rfl

/-- Nothing is left of a text exactly when it holds nothing but blanks. -/
theorem trim_eq_nil_iff {text : List Char} : trim text = [] ↔ IsBlank text := by
  rw [trim_eq_rdropWhile, List.rdropWhile_eq_nil_iff]
  constructor
  · intro h c hc
    rw [← List.takeWhile_append_dropWhile (p := isBlank) (l := text)] at hc
    rcases List.mem_append.mp hc with hc | hc
    · exact List.mem_takeWhile_imp hc
    · exact h c hc
  · exact fun h c hc => h c ((List.dropWhile_sublist isBlank).mem hc)

/-- Blanks around a bare text are taken away. -/
theorem trim_padded {before name after : List Char} (hbefore : IsBlank before) (hname : IsBare name)
    (hafter : IsBlank after) : trim (before ++ name ++ after) = name := by
  have hfront : (before ++ name ++ after).dropWhile isBlank = name ++ after := by
    rw [List.append_assoc, List.dropWhile_append_of_pos hbefore]
    rcases List.exists_cons_of_ne_nil hname.ne_nil with ⟨c, rest, rfl⟩
    rw [List.cons_append, List.dropWhile_cons_of_neg (by simp [hname.head c rfl])]
  have hrest : after.reverse.dropWhile isBlank = [] :=
    List.dropWhile_eq_nil_iff.mpr fun c hc => hafter c (List.mem_reverse.mp hc)
  rw [trim_eq_rdropWhile, hfront, List.rdropWhile, List.reverse_append, List.dropWhile_append,
    hrest, List.isEmpty_nil, if_pos rfl, ← List.rdropWhile, List.rdropWhile_eq_self_iff]
  intro hne
  simp [hname.last _ (List.getLast?_eq_some_getLast hne)]

/-- A text that is not blank is a bare text with blanks around it. -/
theorem exists_padding {text : List Char} (h : ¬IsBlank text) :
    IsBare (trim text) ∧ ∃ before after, IsBlank before ∧ IsBlank after ∧
      text = before ++ trim text ++ after := by
  have hne : trim text ≠ [] := fun hnil => h (trim_eq_nil_iff.mp hnil)
  have hsplit : text.dropWhile isBlank =
      trim text ++ (text.dropWhile isBlank).rtakeWhile isBlank :=
    (List.rdropWhile_append_rtakeWhile ..).symm
  refine ⟨⟨hne, fun c hc => ?_, fun c hc => ?_⟩, text.takeWhile isBlank,
    (text.dropWhile isBlank).rtakeWhile isBlank, fun c hc => List.mem_takeWhile_imp hc,
    fun c hc => List.mem_rtakeWhile_imp hc, ?_⟩
  · -- The first character is the first one behind the blanks at the front.
    rcases List.exists_cons_of_ne_nil hne with ⟨first, rest, hcons⟩
    rw [hcons, List.head?_cons, Option.some_inj] at hc
    subst hc
    have hfirst := List.head?_dropWhile_not isBlank text
    rw [hsplit, hcons] at hfirst
    simpa using hfirst
  · have hlast := List.rdropWhile_last_not isBlank (text.dropWhile isBlank) hne
    rw [List.getLast?_eq_some_getLast hne, Option.some_inj] at hc
    rw [← hc]
    simpa [trim_eq_rdropWhile] using hlast
  · rw [List.append_assoc, ← hsplit, List.takeWhile_append_dropWhile]

end Text

namespace Configuration

open Text

/-! ## Lists -/

/-- Whether a text can be named in a list: it has no comma, and no blank at either end. -/
structure IsListable (name : List Char) : Prop where
  bare : IsBare name
  comma : ',' ∉ name

/-- Names with blanks around each of them, and blank parts among them. -/
inductive Parts : List (List Char) → List (List Char) → Prop
  | none : Parts [] []
  | blank {part : List Char} {names parts : List (List Char)} (isBlank : IsBlank part)
      (others : Parts names parts) : Parts names (part :: parts)
  | name {before name after : List Char} {names parts : List (List Char)}
      (isBlankBefore : IsBlank before) (isBlankAfter : IsBlank after)
      (others : Parts names parts) : Parts (name :: names) ((before ++ name ++ after) :: parts)

/-- Whether a text lists calendars: their names, with blanks around them and blank
parts among them, are joined with commas. -/
def Lists (list : String) (calendars : List String) : Prop :=
  ∃ parts, Parts (calendars.map String.toList) parts ∧ list.toList = [','].intercalate parts

/-- Neither the names nor the blanks around them hold a comma. -/
theorem Parts.comma {names parts : List (List Char)} (h : Parts names parts)
    (listable : ∀ name ∈ names, IsListable name) : ∀ part ∈ parts, ',' ∉ part := by
  have hblank : ∀ {text : List Char}, IsBlank text → ',' ∉ text := fun htext hmem =>
    absurd (htext _ hmem) (by decide)
  induction h with
  | none => simp
  | blank isBlank _ ih =>
    intro part hpart
    rcases List.mem_cons.mp hpart with rfl | hpart
    · exact hblank isBlank
    · exact ih listable part hpart
  | @name before name after names parts isBlankBefore isBlankAfter _ ih =>
    intro part hpart
    rcases List.mem_cons.mp hpart with rfl | hpart
    · simp [hblank isBlankBefore, hblank isBlankAfter, (listable name List.mem_cons_self).comma]
    · exact ih (fun other hother => listable other (List.mem_cons_of_mem _ hother)) part hpart

/-- The names are what is left of the parts without blanks. -/
theorem Parts.trimmed {names parts : List (List Char)} (h : Parts names parts)
    (listable : ∀ name ∈ names, IsListable name) :
    (parts.map trim).filter (· ≠ []) = names := by
  induction h with
  | none => rfl
  | blank isBlank _ ih =>
    rw [List.map_cons, trim_eq_nil_iff.mpr isBlank, List.filter_cons_of_neg (by simp)]
    exact ih listable
  | @name before name after names parts isBlankBefore isBlankAfter _ ih =>
    have hbare := (listable name List.mem_cons_self).bare
    rw [List.map_cons, trim_padded isBlankBefore hbare isBlankAfter,
      List.filter_cons_of_pos (by simp [hbare.ne_nil]),
      ih fun other hother => listable other (List.mem_cons_of_mem _ hother)]

/-- Whatever the parts are, they hold names with blanks around them. -/
theorem parts_trimmed (parts : List (List Char)) :
    Parts ((parts.map trim).filter (· ≠ [])) parts := by
  induction parts with
  | nil => exact .none
  | cons part parts ih =>
    by_cases hblank : IsBlank part
    · rw [List.map_cons, trim_eq_nil_iff.mpr hblank, List.filter_cons_of_neg (by simp)]
      exact .blank hblank ih
    · rcases exists_padding hblank with ⟨hbare, before, after, hbefore, hafter, hpart⟩
      have hnamed : Parts (trim part :: (parts.map trim).filter (· ≠ []))
          ((before ++ trim part ++ after) :: parts) :=
        .name hbefore hafter ih
      rw [List.map_cons, List.filter_cons_of_pos (by simp [hbare.ne_nil])]
      rwa [← hpart] at hnamed

theorem map_toList_calendarList (list : String) :
    (calendarList list).map String.toList =
      ((split ',' list.toList).map trim).filter (· ≠ []) := by
  rw [calendarList, List.map_map]
  simp [Function.comp_def]

/-- What a list names can be named in a list. -/
theorem isListable_of_mem {list : String} {calendar : String} (h : calendar ∈ calendarList list) :
    IsListable calendar.toList := by
  have hmem := List.mem_map_of_mem (f := String.toList) h
  rw [map_toList_calendarList] at hmem
  rcases List.mem_filter.mp hmem with ⟨htrimmed, hne⟩
  rcases List.mem_map.mp htrimmed with ⟨part, hpart, heq⟩
  have hblank : ¬IsBlank part := by
    intro hblank
    rw [← heq, trim_eq_nil_iff.mpr hblank] at hne
    simp at hne
  rcases exists_padding hblank with ⟨hbare, before, after, _, _, hpadded⟩
  rw [← heq]
  refine ⟨hbare, fun hcomma => not_mem_of_mem_split hpart ?_⟩
  rw [hpadded]
  simp [hcomma]

/-- A text lists the calendars that are read from it and no others. -/
theorem lists_iff {list : String} {calendars : List String} :
    ((∀ calendar ∈ calendars, IsListable calendar.toList) ∧ Lists list calendars) ↔
      calendarList list = calendars := by
  constructor
  · rintro ⟨listable, parts, hparts, hlist⟩
    have hnames : ∀ name ∈ calendars.map String.toList, IsListable name := by
      simpa using listable
    apply List.map_injective_iff.mpr fun _ _ => String.toList_inj.mp
    rw [map_toList_calendarList, hlist]
    cases parts with
    | nil =>
      rw [← hparts.trimmed hnames]
      rfl
    | cons part parts =>
      rw [split_intercalate (hparts.comma hnames) (List.cons_ne_nil _ _), hparts.trimmed hnames]
  · rintro rfl
    refine ⟨fun calendar h => isListable_of_mem h, split ',' list.toList, ?_,
      (intercalate_split ',' list.toList).symm⟩
    rw [map_toList_calendarList]
    exact parts_trimmed _

/-- A text names no calendar exactly when it holds only commas and blanks. -/
theorem calendarList_eq_nil_iff {list : String} :
    calendarList list = [] ↔ ∀ c ∈ list.toList, c = ',' ∨ isBlank c = true := by
  have hparts : calendarList list = [] ↔ ∀ part ∈ split ',' list.toList, IsBlank part := by
    simp [calendarList, List.filter_eq_nil_iff, trim_eq_nil_iff]
  rw [hparts]
  exact forall_mem_split_iff

/-! ## Settings -/

theorem withCalendarList_of_nil {configuration : Configuration} {list : String}
    (h : calendarList list = []) : configuration.withCalendarList list = configuration := by
  rw [withCalendarList, h]

theorem withCalendarList_of_ne_nil {configuration : Configuration} {list : String}
    (h : calendarList list ≠ []) :
    configuration.withCalendarList list =
      { configuration with calendars := calendarList list } := by
  rw [withCalendarList]
  split
  · contradiction
  · rfl

/-- A text that lists calendars, at least one, makes them the calendars of the
settings, in their order, and leaves the waiting time as it is.  Whatever a text
holds, it either has only commas and blanks and leaves the settings as they are, or
it lists calendars in this way. -/
theorem withCalendarList_lists (configuration : Configuration) :
    (∀ (calendars : List String) (list : String), calendars ≠ [] →
      (∀ calendar ∈ calendars, IsListable calendar.toList) → Lists list calendars →
      configuration.withCalendarList list = { configuration with calendars }) ∧
    ∀ list : String,
      ((∀ c ∈ list.toList, c = ',' ∨ isBlank c = true) →
        configuration.withCalendarList list = configuration) ∧
      ((∃ c ∈ list.toList, c ≠ ',' ∧ isBlank c = false) →
        ∃ calendars, calendars ≠ [] ∧ (∀ calendar ∈ calendars, IsListable calendar.toList) ∧
          Lists list calendars ∧
          configuration.withCalendarList list = { configuration with calendars }) := by
  refine ⟨fun calendars list hne listable hlists => ?_, fun list => ⟨fun hblank => ?_, ?_⟩⟩
  · have hread := lists_iff.mp ⟨listable, hlists⟩
    rw [withCalendarList_of_ne_nil (by rwa [hread]), hread]
  · exact withCalendarList_of_nil (calendarList_eq_nil_iff.mpr hblank)
  · rintro ⟨c, hc, hcomma, hblank⟩
    have hne : calendarList list ≠ [] := by
      intro hnil
      have hor := calendarList_eq_nil_iff.mp hnil c hc
      simp [hcomma, hblank] at hor
    rcases lists_iff.mpr rfl with ⟨listable, hlists⟩
    exact ⟨_, hne, listable, hlists, withCalendarList_of_ne_nil hne⟩

/-- Two calendars with blanks of several kinds around them, and blank parts at the
front, at the end and in between. -/
theorem withCalendarList_lists_padded :
    Lists ",\u00a0https://a.example\t, ,\u3000,b c\n," ["https://a.example", "b c"] ∧
      (Configuration.mk ["d"] 5).withCalendarList
          ",\u00a0https://a.example\t, ,\u3000,b c\n," =
        ⟨["https://a.example", "b c"], 5⟩ := by
  have hblank : ∀ {text : List Char}, text.all isBlank = true → IsBlank text :=
    List.all_eq_true.mp
  have hparts : Parts ["https://a.example".toList, "b c".toList]
      [[], ['\u00a0'] ++ "https://a.example".toList ++ ['\t'], [' '], ['\u3000'],
        [] ++ "b c".toList ++ ['\n'], []] :=
    .blank (hblank rfl) (.name (hblank (by decide)) (hblank (by decide))
      (.blank (hblank (by decide)) (.blank (hblank (by decide))
        (.name (hblank rfl) (hblank (by decide)) (.blank (hblank rfl) .none)))))
  have hlists : Lists ",\u00a0https://a.example\t, ,\u3000,b c\n,"
      ["https://a.example", "b c"] := ⟨_, hparts, by decide⟩
  refine ⟨hlists, (withCalendarList_lists _).1 _ _ (List.cons_ne_nil _ _) ?_ hlists⟩
  intro calendar hcalendar
  simp only [List.mem_cons, List.not_mem_nil, or_false] at hcalendar
  rcases hcalendar with rfl | rfl <;>
    exact ⟨⟨by decide, by rintro c ⟨⟩; decide, by rintro c ⟨⟩; decide⟩, by decide⟩

end Configuration

end CalendarStamp
