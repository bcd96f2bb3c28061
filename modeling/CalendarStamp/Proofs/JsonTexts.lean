import CalendarStamp.Proofs.JsonReading

/-!
# Written values

A value is written in one of two layouts, which differ only in the blanks between
its parts.  In either of them the text denotes the value that was written, whatever
the texts in the value hold: a quote, a backslash or a control character inside a
text is escaped, and each escape stands for what it replaces.  Numbers are written
as they are kept, so they have to be numbers.

Main results:

- Theorem `spellsChar_escapeChar`: what is written for a character spells it.
- Theorem `spells_write`: a value is written as one of its spellings.
- Theorem `denotes_compact`: the text on one line denotes the value.
- Theorem `denotes_pretty`: the text with one item per line denotes the value.
-/

namespace CalendarStamp.Json

/-! ## Strings -/

theorem hexValue?_hexDigit : ∀ n < 16, hexValue? (hexDigit n) = some n := by
  decide

/-- What is written for a character spells it. -/
theorem spellsChar_escapeChar (c : Char) : SpellsChar c (escapeChar c) := by
  unfold escapeChar
  split
  case h_8 hquote hslash _ _ _ _ _ =>
    split
    · rename_i hcontrol
      have hcode : codeUnit? '0' '0' (hexDigit (c.toNat / 16)) (hexDigit (c.toNat % 16)) =
          some c.toNat := by
        have hzero : hexValue? '0' = some 0 := rfl
        rw [codeUnit?, hzero, hexValue?_hexDigit _ (by omega), hexValue?_hexDigit _ (by omega)]
        simp only [Option.bind_eq_bind, Option.bind_some, Option.pure_def, Option.some_inj]
        omega
      exact .code hcode
    · rename_i hplain
      refine .plain ?_
      simp only [isPlain, Bool.and_eq_true, decide_eq_true_eq]
      exact ⟨⟨by omega, hquote⟩, hslash⟩
  all_goals exact .escape rfl

theorem spellsChars_flatMap (text : List Char) : SpellsChars text (text.flatMap escapeChar) := by
  induction text with
  | nil => exact .nil
  | cons c text ih =>
    rw [List.flatMap_cons]
    exact .cons (spellsChar_escapeChar c) ih

theorem spellsString_quote (text : String) : SpellsString text (quote text) :=
  .quoted (spellsChars_flatMap text.toList)

/-! ## Layouts -/

theorem isBlank_nil : IsBlank [] := by
  simp [IsBlank]

/-- A layout that puts nothing but blanks between the parts of a value, apart from
the colon behind a name. -/
structure Layout.BlankOnly (layout : Layout) : Prop where
  line : ∀ level, IsBlank (layout.line level)
  colon : ∃ before after, layout.colon = before ++ ':' :: after ∧ IsBlank before ∧ IsBlank after

theorem Layout.blankOnly_compact : Layout.compact.BlankOnly where
  line _ := isBlank_nil
  colon := ⟨[], [], rfl, isBlank_nil, isBlank_nil⟩

theorem Layout.blankOnly_pretty : Layout.pretty.BlankOnly where
  line _ := by simp [pretty, IsBlank, isBlank]
  colon := ⟨[], [' '], rfl, isBlank_nil, by simp [IsBlank, isBlank]⟩

/-! ## Values -/

/-- A value of which all numbers are numbers. -/
inductive WellFormed : Json → Prop
  | null : WellFormed .null
  | number {literal : String} (isNumber : isNumber literal.toList = true) :
      WellFormed (.number literal)
  | string (text : String) : WellFormed (.string text)
  | array {items : List Json} (all : ∀ item ∈ items, WellFormed item) : WellFormed (.array items)
  | object {members : List (String × Json)} (all : ∀ member ∈ members, WellFormed member.2) :
      WellFormed (.object members)

section

variable {layout : Layout} (blank : layout.BlankOnly)
include blank

/-- The items of an array are written with commas between them. -/
theorem spellsItems_write {level : Nat} {item : Json} {items : List Json}
    (spelt : ∀ item' ∈ item :: items, SpellsValue item' (write layout (level + 1) item')) :
    ∃ body, layout.line (level + 1) ++ write layout (level + 1) item ++
        writeItems layout level items = body ++ [']'] ∧ SpellsItems (item :: items) body := by
  have hfirst := spelt item List.mem_cons_self
  induction items generalizing item with
  | nil =>
    refine ⟨_, ?_, .last (.padded (blank.line (level + 1)) hfirst (blank.line level))⟩
    simp [writeItems]
  | cons next items ih =>
    have hothers := fun item' h => spelt item' (List.mem_cons_of_mem _ h)
    rcases ih hothers (hothers next List.mem_cons_self) with ⟨body, hbody, hitems⟩
    refine ⟨_, ?_, .more (.padded (blank.line (level + 1)) hfirst isBlank_nil) hitems⟩
    rw [writeItems, hbody]
    simp

/-- The members of an object are written with commas between them. -/
theorem spellsMembers_write {level : Nat} {name : String} {value : Json}
    {members : List (String × Json)}
    (spelt : ∀ member ∈ (name, value) :: members,
      SpellsValue member.2 (write layout (level + 1) member.2)) :
    ∃ body, layout.line (level + 1) ++ quote name ++ layout.colon ++
        write layout (level + 1) value ++ writeMembers layout level members = body ++ ['}'] ∧
      SpellsMembers ((name, value) :: members) body := by
  rcases blank.colon with ⟨before, after, hcolon, hbefore, hafter⟩
  have hnamed := SpellsName.padded (blank.line (level + 1)) (spellsString_quote name) hbefore
  have hfirst := spelt _ List.mem_cons_self
  induction members generalizing name value with
  | nil =>
    refine ⟨_, ?_, .last hnamed (.padded hafter hfirst (blank.line level))⟩
    simp [writeMembers, hcolon]
  | cons next members ih =>
    have hothers := fun member h => spelt member (List.mem_cons_of_mem _ h)
    have hnext := SpellsName.padded (blank.line (level + 1)) (spellsString_quote next.1) hbefore
    rcases ih hothers hnext (hothers next List.mem_cons_self) with ⟨body, hbody, hmembers⟩
    refine ⟨_, ?_, .more hnamed (.padded hafter hfirst isBlank_nil) hmembers⟩
    rw [writeMembers, hbody]
    simp [hcolon]

/-- A value is written as one of its spellings. -/
theorem spells_write {value : Json} (h : WellFormed value) (level : Nat) :
    SpellsValue value (write layout level value) := by
  induction h generalizing level with
  | null =>
    rw [write]
    exact .null
  | number isNumber =>
    rw [write]
    exact .number isNumber
  | string text =>
    rw [write]
    exact .string (spellsString_quote text)
  | @array items _ ih =>
    cases items with
    | nil =>
      rw [write]
      exact .noItems isBlank_nil
    | cons item items =>
      rcases spellsItems_write blank fun item' h => ih item' h (level + 1) with
        ⟨body, hbody, hitems⟩
      rw [write, hbody]
      exact .items hitems
  | @object members _ ih =>
    cases members with
    | nil =>
      rw [write]
      exact .noMembers isBlank_nil
    | cons member members =>
      rcases member with ⟨name, value⟩
      rcases spellsMembers_write blank fun member h => ih member h (level + 1) with
        ⟨body, hbody, hmembers⟩
      rw [write, hbody]
      exact .members hmembers

theorem denotes_write {value : Json} (h : WellFormed value) :
    Denotes (String.ofList (value.write layout 0)) value := by
  have hpadded := SpellsElement.padded isBlank_nil (spells_write blank h 0) isBlank_nil
  rw [Denotes, String.toList_ofList]
  simpa using hpadded

end

/-- The text on one line denotes the value. -/
theorem denotes_compact {value : Json} (h : WellFormed value) : Denotes value.compact value :=
  denotes_write Layout.blankOnly_compact h

/-- The text with one item per line denotes the value. -/
theorem denotes_pretty {value : Json} (h : WellFormed value) : Denotes value.pretty value :=
  denotes_write Layout.blankOnly_pretty h

end CalendarStamp.Json
