import CalendarStamp.Configuration
import CalendarStamp.Proofs.QuotedTexts
import Mathlib

/-!
# The layout of settings

The text of settings is laid out for people.  A text with nothing special in it stands
in quotes as it is.  Between double quotes a character may have to be spelled in
another way, and how depends on what stands before it: where three quotes close a
text, line breaks need no escape and double quotes need one only as each third in a
row.  Several calendars stand on a line each.

Main results:

- Theorem `escapeText_eq_spelled`: what stands between double quotes, character by
  character.
- Theorem `writeAs_eq`: a text in quotes.
- Theorem `write_eq`: settings are written line by line.
-/

namespace CalendarStamp.Toml

/-! ## Spellings -/

/-- The characters whose escape is a letter or a sign, with that sign. -/
def shortEscapes : List (Char × Char) :=
  [('\x08', 'b'), ('\t', 't'), ('\n', 'n'), ('\x0c', 'f'), ('\r', 'r'), ('"', '"'), ('\\', '\\')]

/-- How many double quotes stand at the end of a text. -/
def quotesAtEnd (text : List Char) : Nat :=
  (text.rtakeWhile (· = '"')).length

/-- Whether a character behind a text needs no escape in spite of its meaning.  In a text of
several lines line breaks need none, and only each third of double quotes in a row needs one. -/
def IsPlainAfter (before : List Char) (c : Char) : Prop :=
  c = '\n' ∨ (c = '"' ∧ quotesAtEnd before % 3 ≠ 2)

instance (before : List Char) (c : Char) : Decidable (IsPlainAfter before c) :=
  inferInstanceAs (Decidable (_ ∨ _))

/-- How a character is spelled between double quotes, behind what stands before it. -/
def spelling (multiline : Bool) (before : List Char) (c : Char) : List Char :=
  if multiline = true ∧ IsPlainAfter before c then [c]
  else
    match shortEscapes.lookup c with
    | some sign => ['\\', sign]
    | none => if isControl c then '\\' :: 'u' :: hexQuad c.toNat else [c]

/-- How a text is spelled between double quotes, each character behind those before it. -/
def spelled (multiline : Bool) (text : List Char) : List Char :=
  (text.inits.zip text).flatMap fun (before, c) => spelling multiline before c

theorem quotesAtEnd_quote (before : List Char) :
    quotesAtEnd (before ++ ['"']) = quotesAtEnd before + 1 := by
  rw [quotesAtEnd, List.rtakeWhile_concat_pos _ _ _ (by simp), List.length_append]
  rfl

theorem quotesAtEnd_other (before : List Char) {c : Char} (hc : c ≠ '"') :
    quotesAtEnd (before ++ [c]) = 0 := by
  rw [quotesAtEnd, List.rtakeWhile_concat_neg _ _ _ (by simpa using hc)]
  rfl

/-- A character that is neither a double quote nor a line break is spelled in one way. -/
theorem spelling_eq_escapeChar (multiline : Bool) (before : List Char) {c : Char} (hquote : c ≠ '"')
    (hbreak : c ≠ '\n') : spelling multiline before c = escapeChar c := by
  have hplain : ¬(multiline = true ∧ IsPlainAfter before c) := by
    simp [IsPlainAfter, hquote, hbreak]
  rw [spelling, if_neg hplain]
  by_cases hmember : c ∈ ['\x08', '\t', '\x0c', '\r', '\\']
  · simp only [List.mem_cons, List.not_mem_nil, or_false] at hmember
    rcases hmember with rfl | rfl | rfl | rfl | rfl <;> rfl
  · simp only [List.mem_cons, List.not_mem_nil, or_false, not_or] at hmember
    rcases hmember with ⟨hback, htab, hfeed, hreturn, hslash⟩
    have hlookup : shortEscapes.lookup c = none := by
      simp [shortEscapes, List.lookup_eq_none_iff, hback, htab, hfeed, hreturn, hslash, hquote,
        hbreak]
    rw [hlookup, escapeChar.eq_6 _ hback htab hfeed hreturn hslash]

theorem spelling_quote (multiline : Bool) (before : List Char) :
    spelling multiline before '"' =
      if multiline = true ∧ quotesAtEnd before % 3 ≠ 2 then ['"'] else ['\\', '"'] := by
  have hlookup : shortEscapes.lookup '"' = some '"' := rfl
  simp [spelling, IsPlainAfter, hlookup]

theorem spelling_break (multiline : Bool) (before : List Char) :
    spelling multiline before '\n' = if multiline then ['\n'] else ['\\', 'n'] := by
  have hlookup : shortEscapes.lookup '\n' = some 'n' := rfl
  simp [spelling, IsPlainAfter, hlookup]

/-- How many double quotes at the end of a text are plain and in a row when it is escaped. -/
def plainQuotes (multiline : Bool) (text : List Char) : Nat :=
  if multiline then quotesAtEnd text % 3 else 0

/-- Escaping spells the first character and counts it. -/
theorem escapeText_cons (multiline : Bool) (before : List Char) (c : Char) (text : List Char) :
    escapeText multiline (if multiline then 2 else 0) (plainQuotes multiline before) (c :: text) =
      spelling multiline before c ++
        escapeText multiline (if multiline then 2 else 0) (plainQuotes multiline (before ++ [c]))
          text := by
  by_cases hquote : c = '"'
  · subst hquote
    rw [escapeText, if_pos rfl, spelling_quote, plainQuotes, plainQuotes, quotesAtEnd_quote]
    cases multiline with
    | false => simp
    | true =>
      by_cases hthird : quotesAtEnd before % 3 = 2
      · have hnext : (quotesAtEnd before + 1) % 3 = 0 := by omega
        simp [hthird, hnext]
      · have hnext : (quotesAtEnd before + 1) % 3 = quotesAtEnd before % 3 + 1 := by omega
        have hless : quotesAtEnd before % 3 < 2 := by omega
        simp [hthird, hnext, hless]
  · have hother : plainQuotes multiline (before ++ [c]) = 0 := by
      simp [plainQuotes, quotesAtEnd_other before hquote]
    rw [escapeText, if_neg hquote, hother]
    by_cases hbreak : c = '\n'
    · rw [if_pos hbreak, hbreak, spelling_break]
    · rw [if_neg hbreak, spelling_eq_escapeChar multiline before hquote hbreak]

/-- Escaping a text spells its characters, each behind those before it. -/
theorem escapeText_after (multiline : Bool) (before text : List Char) :
    escapeText multiline (if multiline then 2 else 0) (plainQuotes multiline before) text =
      (text.inits.zip text).flatMap fun part => spelling multiline (before ++ part.1) part.2 := by
  induction text generalizing before with
  | nil => rfl
  | cons c text ih =>
    rw [escapeText_cons, ih, List.inits_cons, List.zip_cons_cons, List.flatMap_cons,
      List.append_nil, List.zip_map_left, List.flatMap_map]
    simp

/-- What stands between double quotes is the text as it is spelled. -/
theorem escapeText_eq_spelled (multiline : Bool) (text : List Char) :
    escapeText multiline (if multiline then 2 else 0) 0 text = spelled multiline text := by
  have hafter := escapeText_after multiline [] text
  simpa [spelled, plainQuotes, quotesAtEnd] using hafter

example : spelled true ['"', '"', '"', '\n', '\t'] = ['"', '"', '\\', '"', '\n', '\\', 't'] := rfl

/-! ## Quotes -/

/-- The quotes around a text. -/
def Form.quotes : Form → List Char
  | basic => ['"']
  | literal => ['\'']
  | multilineBasic => ['"', '"', '"']
  | multilineLiteral => ['\'', '\'', '\'']

/-- What stands between the quotes.  Three quotes are followed by a line break if the text
has one. -/
def Form.content (text : List Char) : Form → List Char
  | basic => spelled false text
  | literal => text
  | multilineBasic => (if '\n' ∈ text then ['\n'] else []) ++ spelled true text
  | multilineLiteral => (if '\n' ∈ text then ['\n'] else []) ++ text

/-- A text is written between the quotes of its form. -/
theorem writeAs_eq (form : Form) (text : List Char) :
    writeAs form text = form.quotes ++ form.content text ++ form.quotes := by
  have hbasic := escapeText_eq_spelled false text
  have hmultiline := escapeText_eq_spelled true text
  cases form with
  | basic => simpa [writeAs, Form.quotes, Form.content] using hbasic
  | literal => simp [writeAs, Form.quotes, Form.content]
  | multilineBasic => simpa [writeAs, Form.quotes, Form.content] using hmultiline
  | multilineLiteral => simp [writeAs, Form.quotes, Form.content]

end CalendarStamp.Toml

namespace CalendarStamp.Configuration

open Toml (Form)

/-! ## Lines -/

/-- A text in quotes, in the first form that suits it. -/
def quoted (text : String) : String :=
  let form := Form.first text.toList
  String.ofList (form.quotes ++ form.content text.toList ++ form.quotes)

/-- The lines that give the calendars.  Several calendars have a line each. -/
def calendarLines : List String → List String
  | [] => ["calendars = []"]
  | [address] => ["calendars = [" ++ quoted address ++ "]"]
  | addresses =>
    "calendars = [" :: addresses.map (fun address => "    " ++ quoted address ++ ",") ++ ["]"]

/-- The line that gives the waiting time in decimal digits. -/
def timeoutLine (timeoutSecs : UInt64) : String :=
  "timeout_secs = " ++ toString timeoutSecs.toNat

/-- The text of settings, line by line. -/
def prettyText (configuration : Configuration) : String :=
  String.join ((calendarLines configuration.calendars ++
    [timeoutLine configuration.timeoutSecs]).map (· ++ "\n"))

theorem toList_quoted (text : String) : (quoted text).toList = Toml.writeText text.toList := by
  rw [quoted, String.toList_ofList, Toml.writeText, Toml.formOf_eq, Toml.writeAs_eq]

/-- A line break in front of each line, with one more at the end, is one behind each line,
with one more at the start. -/
theorem flatMap_cons_break {α : Type} (line : α → List Char) (items : List α) :
    items.flatMap (fun item => '\n' :: line item) ++ ['\n'] =
      '\n' :: items.flatMap fun item => line item ++ ['\n'] := by
  induction items with
  | nil => rfl
  | cons item items ih => simp [ih]

/-- The calendars are written line by line. -/
theorem toList_calendarLines (calendars : List String) :
    (String.join ((calendarLines calendars).map (· ++ "\n"))).toList =
      "calendars = ".toList ++ Toml.writeTexts calendars ++ ['\n'] := by
  match calendars with
  | [] => simp [calendarLines, Toml.writeTexts]
  | [address] => simp [calendarLines, Toml.writeTexts, toList_quoted]
  | first :: second :: others =>
    generalize hcalendars : first :: second :: others = calendars
    have hpretty : calendarLines calendars = "calendars = [" ::
        calendars.map (fun address => "    " ++ quoted address ++ ",") ++ ["]"] := by
      rw [← hcalendars]
      rfl
    have hwritten : Toml.writeTexts calendars = '[' :: (calendars.flatMap (fun item =>
        '\n' :: (List.replicate 4 ' ' ++ Toml.writeText item.toList ++ [','])) ++ ['\n', ']']) := by
      rw [← hcalendars]
      rfl
    have hlines := flatMap_cons_break (fun item : String =>
      List.replicate 4 ' ' ++ Toml.writeText item.toList ++ [',']) calendars
    have hjoin : ∀ rest, '[' :: (calendars.flatMap (fun item =>
        '\n' :: (List.replicate 4 ' ' ++ Toml.writeText item.toList ++ [','])) ++ '\n' :: rest) =
          ('[' :: '\n' :: calendars.flatMap fun item =>
            List.replicate 4 ' ' ++ Toml.writeText item.toList ++ [','] ++ ['\n']) ++ rest := by
      intro rest
      rw [List.cons_append, ← hlines]
      simp
    rw [hpretty, hwritten, hjoin]
    simp [toList_quoted, List.flatMap_map]

/-- Settings are written line by line. -/
theorem write_eq {configuration : Configuration}
    (h : configuration.timeoutSecs.toNat < Toml.integerLimit) :
    configuration.write = some configuration.prettyText := by
  rw [write, if_pos h, prettyText, Option.some_inj, ← String.toList_inj, List.map_append,
    String.join_append, String.toList_append (s := String.join _), toList_calendarLines]
  simp [timeoutLine, Toml.writeNatural]

end CalendarStamp.Configuration
