import CalendarStamp.Proofs.JsonGrammar

/-!
# Reading JSON texts

A reader goes through a text from front to back and finds the value that the
grammar gives it.  Each part of it takes something off the front of a text and
leaves the rest.  What decides is the next character: no two values begin alike,
and behind an item there is a comma or the end of its list.

The reader finds every value that the grammar derives, and it finds no other.  So
a text denotes one value at most.

Main results:

- Theorem `readValue_of_spells`: the reader finds each value that the grammar derives.
- Theorem `finds_readValue`: the reader finds no other value.
- Theorem `read?_eq_some_iff`: reading gives the value that the text denotes.
- Theorem `Denotes.unique`: a text denotes one value at most.
-/

namespace CalendarStamp.Json

variable {α : Type}

/-! ## The reader -/

/-- A reader takes something off the front of a text and leaves the rest. -/
abbrev Reader (α : Type) : Type :=
  List Char → Option (α × List Char)

/-- A reader that takes nothing but spellings off the front of a text. -/
def Finds (read : Reader α) (Spells : α → List Char → Prop) : Prop :=
  ∀ ⦃text rest value⦄, read text = some (value, rest) →
    ∃ front, text = front ++ rest ∧ Spells value front

/-- What follows a character that has to come first. -/
def expect (c : Char) : List Char → Option (List Char)
  | [] => none
  | first :: rest => if first = c then some rest else none

/-- A text without the blanks in front. -/
def skipBlanks (text : List Char) : List Char :=
  text.dropWhile isBlank

/-- A reader that allows for blanks on both sides. -/
def padded (read : Reader α) : Reader α := fun text => do
  let (value, rest) ← read (skipBlanks text)
  return (value, skipBlanks rest)

/-- The character with a code, for the codes that belong to one. -/
def charOfCode? (code : Nat) : Option Char :=
  if (Char.ofNat code).toNat = code then some (Char.ofNat code) else none

/-- Four hexadecimal digits. -/
def readCodeUnit : Reader Nat
  | k :: l :: m :: n :: rest => do return (← codeUnit? k l m n, rest)
  | _ => none

/-- A character by its code, or by two surrogates. -/
def readCode : Reader Char := fun text => do
  let (first, rest) ← readCodeUnit text
  match charOfCode? first with
  | some c => return (c, rest)
  | none =>
    let (second, rest) ← readCodeUnit (← expect 'u' (← expect '\\' rest))
    return (← charOfCode? (← surrogates? first second), rest)

/-- A character between quotes. -/
def readChar : Reader Char
  | [] => none
  | c :: rest =>
    if c = '\\' then
      match rest with
      | [] => none
      | letter :: rest =>
        if letter = 'u' then readCode rest else do return (← unescaped? letter, rest)
    else if isPlain c then
      some (c, rest)
    else
      none

/-- Characters up to the closing quote. -/
def readChars : Nat → Reader (List Char)
  | 0, _ => none
  | count + 1, text =>
    match expect '"' text with
    | some rest => some ([], rest)
    | none => do
      let (c, rest) ← readChar text
      let (others, rest) ← readChars count rest
      return (c :: others, rest)

/-- A text between quotes. -/
def readString : Reader String := fun text => do
  let (chars, rest) ← readChars text.length (← expect '"' text)
  return (String.ofList chars, rest)

/-- The longest number in front of a text. -/
def readNumber : Reader String := fun text =>
  let literal := text.takeWhile isNumberChar
  if isNumber literal then some (String.ofList literal, text.dropWhile isNumberChar) else none

/-- One or more items with commas between them, and what closes them. -/
def readItems (close : Char) (read : Reader α) : Nat → Reader (List α)
  | 0, _ => none
  | count + 1, text => do
    let (item, rest) ← read text
    match expect ',' rest with
    | some rest =>
      let (items, rest) ← readItems close read count rest
      return (item :: items, rest)
    | none => return ([item], ← expect close rest)

/-- Items with commas between them, and what closes them. -/
def readList (close : Char) (read : Reader α) : Reader (List α) := fun text =>
  match expect close (skipBlanks text) with
  | some rest => some ([], rest)
  | none => readItems close read text.length text

/-- A name and a value with a colon between them. -/
def readMember (read : Reader Json) : Reader (String × Json) := fun text => do
  let (name, rest) ← padded readString text
  let (value, rest) ← padded read (← expect ':' rest)
  return ((name, value), rest)

/-- A value.  The first argument bounds how deep it may be nested. -/
def readValue : Nat → Reader Json
  | 0, _ => none
  | _, [] => none
  | depth + 1, first :: rest =>
    if first = 'n' then do
      return (null, ← expect 'l' (← expect 'l' (← expect 'u' rest)))
    else if first = '"' then do
      let (text, rest) ← readString (first :: rest)
      return (string text, rest)
    else if first = '[' then do
      let (items, rest) ← readList ']' (padded (readValue depth)) rest
      return (array items, rest)
    else if first = '{' then do
      let (members, rest) ← readList '}' (readMember (readValue depth)) rest
      return (object members, rest)
    else do
      let (literal, rest) ← readNumber (first :: rest)
      return (number literal, rest)

/-- The value that a text denotes. -/
def read? (text : String) : Option Json := do
  let (value, rest) ← padded (readValue text.toList.length) text.toList
  if rest = [] then some value else none

/-! ## Single characters -/

@[simp] theorem expect_self (c : Char) (rest : List Char) : expect c (c :: rest) = some rest :=
  if_pos rfl

theorem expect_eq_some {c : Char} {text rest : List Char} :
    expect c text = some rest ↔ text = c :: rest := by
  cases text with
  | nil => simp [expect]
  | cons first text => simp [expect]

/-- Another character does not do. -/
theorem expect_eq_none {c first : Char} (h : first ≠ c) (rest : List Char) :
    expect c (first :: rest) = none :=
  if_neg h

theorem charOfCode?_eq_some {code : Nat} {c : Char} :
    charOfCode? code = some c ↔ code = c.toNat := by
  constructor
  · intro h
    rw [charOfCode?] at h
    split at h
    · rename_i hcode
      cases h
      exact hcode.symm
    · cases h
  · rintro rfl
    rw [charOfCode?, Char.ofNat_toNat, if_pos rfl]

@[simp] theorem charOfCode?_toNat (c : Char) : charOfCode? c.toNat = some c :=
  charOfCode?_eq_some.mpr rfl

/-- The first of two surrogates is no code of a character. -/
theorem charOfCode?_of_surrogates? {high low code : Nat} (h : surrogates? high low = some code) :
    charOfCode? high = none := by
  unfold surrogates? at h
  split at h
  · rename_i hrange
    refine if_neg fun hcode => ?_
    have hvalid : (Char.ofNat high).toNat.isValidChar := (Char.ofNat high).valid
    rw [hcode, Nat.isValidChar] at hvalid
    omega
  · cases h

theorem readChar_of_spells {c : Char} {spelling : List Char} (h : SpellsChar c spelling)
    (rest : List Char) : readChar (spelling ++ rest) = some (c, rest) := by
  cases h with
  | plain itself =>
    have hslash : c ≠ '\\' := by
      rintro rfl
      cases itself
    simp [readChar, hslash, itself]
  | @escape letter means =>
    have hcode : letter ≠ 'u' := by
      rintro rfl
      cases means
    simp [readChar, hcode, means]
  | code means => simp [readChar, readCode, readCodeUnit, means]
  | codes first second means =>
    simp [readChar, readCode, readCodeUnit, first, second, charOfCode?_of_surrogates? means, means]

theorem spells_of_readCodeUnit {code : Nat} {text rest : List Char}
    (h : readCodeUnit text = some (code, rest)) :
    ∃ k l m n, text = k :: l :: m :: n :: rest ∧ codeUnit? k l m n = some code := by
  unfold readCodeUnit at h
  split at h
  · rename_i k l m n others
    rcases Option.bind_eq_some_iff.mp h with ⟨unit, hunit, hpair⟩
    cases hpair
    exact ⟨k, l, m, n, rfl, hunit⟩
  · cases h

theorem spells_of_readCode {c : Char} {text rest : List Char} (h : readCode text = some (c, rest)) :
    ∃ spelling, '\\' :: 'u' :: text = spelling ++ rest ∧ SpellsChar c spelling := by
  rw [readCode] at h
  rcases Option.bind_eq_some_iff.mp h with ⟨⟨first, others⟩, hfirst, hmore⟩
  rcases spells_of_readCodeUnit hfirst with ⟨k, l, m, n, rfl, hunit⟩
  dsimp only at hmore
  split at hmore
  · rename_i single hsingle
    cases hmore
    rw [charOfCode?_eq_some] at hsingle
    exact ⟨_, rfl, .code (hsingle ▸ hunit)⟩
  · rcases Option.bind_eq_some_iff.mp hmore with ⟨slashed, hslash, hmore⟩
    rcases Option.bind_eq_some_iff.mp hmore with ⟨marked, hmark, hmore⟩
    rcases Option.bind_eq_some_iff.mp hmore with ⟨⟨second, others⟩, hsecond, hmore⟩
    rcases Option.bind_eq_some_iff.mp hmore with ⟨code, hcode, hmore⟩
    rcases Option.bind_eq_some_iff.mp hmore with ⟨char, hchar, hpair⟩
    cases hpair
    rw [expect_eq_some] at hslash hmark
    rcases spells_of_readCodeUnit hsecond with ⟨p, q, r, s, rfl, hunits⟩
    subst hslash hmark
    rw [charOfCode?_eq_some] at hchar
    exact ⟨_, rfl, .codes hunit hunits (hchar ▸ hcode)⟩

theorem finds_readChar : Finds readChar SpellsChar := by
  intro text rest c h
  unfold readChar at h
  split at h
  · cases h
  · split at h
    · rename_i hslash
      subst hslash
      split at h
      · cases h
      · split at h
        · rename_i hcode
          subst hcode
          exact spells_of_readCode h
        · rcases Option.bind_eq_some_iff.mp h with ⟨meant, hmeant, hpair⟩
          cases hpair
          exact ⟨_, rfl, .escape hmeant⟩
    · split at h
      · rename_i hplain
        cases h
        exact ⟨_, rfl, .plain hplain⟩
      · cases h

/-! ## Strings -/

/-- A character between quotes does not look like the closing quote. -/
theorem SpellsChar.exists_cons {c : Char} {spelling : List Char} (h : SpellsChar c spelling) :
    ∃ first tail, spelling = first :: tail ∧ first ≠ '"' := by
  cases h with
  | plain itself =>
    refine ⟨c, [], rfl, ?_⟩
    rintro rfl
    cases itself
  | escape means => exact ⟨_, _, rfl, by decide⟩
  | code means => exact ⟨_, _, rfl, by decide⟩
  | codes first second means => exact ⟨_, _, rfl, by decide⟩

theorem readChars_of_spells {text body : List Char} (h : SpellsChars text body)
    (rest : List Char) {count : Nat} (hcount : body.length < count) :
    readChars count (body ++ '"' :: rest) = some (text, rest) := by
  induction h generalizing count with
  | nil =>
    cases count with
    | zero => omega
    | succ count => rfl
  | @cons c text spelling body first others ih =>
    rcases first.exists_cons with ⟨start, tail, hspelling, hstart⟩
    cases count with
    | zero => omega
    | succ count =>
      have hread := readChar_of_spells first (body ++ '"' :: rest)
      subst hspelling
      simp only [List.length_append, List.length_cons] at hcount
      rw [List.append_assoc, readChars, List.cons_append, expect_eq_none hstart,
        ← List.cons_append, hread]
      simp only [Option.bind_eq_bind, Option.bind_some]
      rw [ih (by omega)]
      rfl

theorem spells_of_readChars {count : Nat} {text chars rest : List Char}
    (h : readChars count text = some (chars, rest)) :
    ∃ body, text = body ++ '"' :: rest ∧ SpellsChars chars body := by
  induction count generalizing text chars with
  | zero => cases h
  | succ count ih =>
    rw [readChars] at h
    split at h
    · rename_i hquote
      cases h
      exact ⟨[], expect_eq_some.mp hquote, .nil⟩
    · rcases Option.bind_eq_some_iff.mp h with ⟨⟨c, behind⟩, hfirst, hmore⟩
      rcases Option.bind_eq_some_iff.mp hmore with ⟨⟨others, last⟩, hothers, hpair⟩
      cases hpair
      rcases finds_readChar hfirst with ⟨spelling, rfl, hspelling⟩
      rcases ih hothers with ⟨body, rfl, hbody⟩
      exact ⟨spelling ++ body, (List.append_assoc ..).symm, .cons hspelling hbody⟩

theorem readString_of_spells {text : String} {quoted : List Char} (h : SpellsString text quoted)
    (rest : List Char) : readString (quoted ++ rest) = some (text, rest) := by
  cases h with
  | @quoted body chars =>
    have htext : '"' :: body ++ ['"'] ++ rest = '"' :: (body ++ '"' :: rest) := by simp
    have hcount : body.length < ('"' :: (body ++ '"' :: rest)).length := by
      simp only [List.length_cons, List.length_append]
      omega
    rw [readString, htext, expect_self]
    simp only [Option.bind_eq_bind, Option.bind_some]
    rw [readChars_of_spells chars rest hcount]
    simp

theorem finds_readString : Finds readString SpellsString := by
  intro spelt rest text h
  rcases Option.bind_eq_some_iff.mp h with ⟨inside, hquote, hmore⟩
  rcases Option.bind_eq_some_iff.mp hmore with ⟨⟨chars, behind⟩, hchars, hpair⟩
  cases hpair
  rw [expect_eq_some] at hquote
  rcases spells_of_readChars hchars with ⟨body, rfl, hbody⟩
  subst hquote
  exact ⟨'"' :: body ++ ['"'], by simp, .quoted (by simpa using hbody)⟩

/-! ## Blanks -/

theorem skipBlanks_append {blank : List Char} (h : IsBlank blank) (text : List Char) :
    skipBlanks (blank ++ text) = skipBlanks text :=
  List.dropWhile_append_of_pos h

theorem skipBlanks_of_head {text : List Char} (h : ∀ c ∈ text.head?, isBlank c = false) :
    skipBlanks text = text := by
  cases text with
  | nil => rfl
  | cons c text =>
    have hc : ¬ isBlank c = true := by simpa using h c rfl
    exact List.dropWhile_cons_of_neg hc

/-- What is skipped are blanks. -/
theorem exists_skipBlanks (text : List Char) :
    ∃ blank, IsBlank blank ∧ text = blank ++ skipBlanks text :=
  ⟨text.takeWhile isBlank, List.all_eq_true.mp List.all_takeWhile,
    List.takeWhile_append_dropWhile.symm⟩

/-- A text that begins with something else than a blank or a closing character. -/
def Begins (close : Char) (text : List Char) : Prop :=
  ∃ c tail, text = c :: tail ∧ isBlank c = false ∧ c ≠ close

theorem Begins.skipBlanks {close : Char} {before body : List Char} (h : Begins close body)
    (blank : IsBlank before) (rest : List Char) :
    skipBlanks (before ++ body ++ rest) = body ++ rest := by
  rcases h with ⟨c, tail, rfl, hblank, _⟩
  rw [List.append_assoc, skipBlanks_append blank, skipBlanks_of_head]
  simpa using hblank

/-- A closing character or a comma comes next, or nothing. -/
def Ends (text : List Char) : Prop :=
  ∀ c ∈ text.head?, c = ',' ∨ c = ':' ∨ c = ']' ∨ c = '}'

theorem ends_cons {c : Char} (h : c = ',' ∨ c = ':' ∨ c = ']' ∨ c = '}') (text : List Char) :
    Ends (c :: text) := by
  simpa [Ends] using h

theorem Ends.isBlank_eq_false {text : List Char} (h : Ends text) :
    ∀ c ∈ text.head?, isBlank c = false := by
  intro c hc
  rcases h c hc with rfl | rfl | rfl | rfl <;> rfl

/-- Neither blanks nor what comes behind them continue a number. -/
theorem Ends.isNumberChar_eq_false {after text : List Char} (h : Ends text)
    (blank : IsBlank after) : ∀ c ∈ (after ++ text).head?, isNumberChar c = false := by
  intro c hc
  cases after with
  | nil => rcases h c hc with rfl | rfl | rfl | rfl <;> rfl
  | cons first after =>
    cases hc
    have hfirst := blank c List.mem_cons_self
    simp only [isBlank, Bool.or_eq_true, decide_eq_true_eq] at hfirst
    rcases hfirst with ((rfl | rfl) | rfl) | rfl <;> rfl

theorem padded_of_read {read : Reader α} {value : α} {close : Char}
    {before body after rest : List Char} (blankBefore : IsBlank before) (begins : Begins close body)
    (blankAfter : IsBlank after) (ends : Ends rest)
    (h : read (body ++ (after ++ rest)) = some (value, after ++ rest)) :
    padded read (before ++ body ++ after ++ rest) = some (value, rest) := by
  rw [padded, List.append_assoc, begins.skipBlanks blankBefore, h]
  simp only [Option.bind_eq_bind, Option.bind_some]
  rw [skipBlanks_append blankAfter, skipBlanks_of_head ends.isBlank_eq_false]
  rfl

theorem read_of_padded {read : Reader α} {value : α} {text rest : List Char}
    (h : padded read text = some (value, rest)) :
    ∃ before middle after, IsBlank before ∧ IsBlank after ∧ text = before ++ middle ∧
      read middle = some (value, after ++ rest) := by
  rcases Option.bind_eq_some_iff.mp h with ⟨⟨found, behind⟩, hread, hpair⟩
  cases hpair
  rcases exists_skipBlanks text with ⟨before, hbefore, htext⟩
  rcases exists_skipBlanks behind with ⟨after, hafter, hbehind⟩
  rw [hbehind] at hread
  exact ⟨before, _, after, hbefore, hafter, htext, hread⟩

/-! ## Numbers -/

theorem readNumber_of_isNumber {literal : String} (h : isNumber literal.toList = true)
    {rest : List Char} (ends : ∀ c ∈ rest.head?, isNumberChar c = false) :
    readNumber (literal.toList ++ rest) = some (literal, rest) := by
  have hall := isNumberChar_of_isNumber h
  have hrest : rest.takeWhile isNumberChar = [] ∧ rest.dropWhile isNumberChar = rest := by
    cases rest with
    | nil => exact ⟨rfl, rfl⟩
    | cons c rest =>
      have hc : ¬ isNumberChar c = true := by simpa using ends c rfl
      exact ⟨List.takeWhile_cons_of_neg hc, List.dropWhile_cons_of_neg hc⟩
  rw [readNumber, List.takeWhile_append_of_pos hall, List.dropWhile_append_of_pos hall, hrest.1,
    hrest.2, List.append_nil, if_pos h, String.ofList_toList]

theorem isNumber_of_readNumber {literal : String} {text rest : List Char}
    (h : readNumber text = some (literal, rest)) :
    text = literal.toList ++ rest ∧ isNumber literal.toList = true := by
  rw [readNumber] at h
  split at h
  · rename_i hnumber
    cases h
    rw [String.toList_ofList]
    exact ⟨List.takeWhile_append_dropWhile.symm, hnumber⟩
  · cases h

/-! ## Items and members -/

theorem readItems_last {close : Char} {read : Reader α} {item : α} {text rest : List Char}
    (hclose : close ≠ ',') (hread : read (text ++ close :: rest) = some (item, close :: rest))
    (count : Nat) :
    readItems close read (count + 1) (text ++ close :: rest) = some ([item], rest) := by
  rw [readItems, hread]
  simp [expect_eq_none hclose]

theorem readItems_more {close : Char} {read : Reader α} {item : α} {items : List α}
    {text others rest : List Char} {count : Nat}
    (hread : read (text ++ ',' :: others) = some (item, ',' :: others))
    (hothers : readItems close read count others = some (items, rest)) :
    readItems close read (count + 1) (text ++ ',' :: others) = some (item :: items, rest) := by
  rw [readItems, hread]
  simp [hothers]

/-- What is read as items is made of items with commas between them. -/
theorem spells_of_readItems {close : Char} {read : Reader α} {Item : α → List Char → Prop}
    {Items : List α → List Char → Prop}
    (finds : Finds read Item)
    (last : ∀ {item text}, Item item text → Items [item] text)
    (more : ∀ {item text items rest}, Item item text → Items items rest →
      Items (item :: items) (text ++ ',' :: rest))
    {count : Nat} {text rest : List Char} {items : List α}
    (h : readItems close read count text = some (items, rest)) :
    ∃ body, text = body ++ close :: rest ∧ Items items body := by
  induction count generalizing text items with
  | zero => cases h
  | succ count ih =>
    rw [readItems] at h
    rcases Option.bind_eq_some_iff.mp h with ⟨⟨item, behind⟩, hfirst, hmore⟩
    rcases finds hfirst with ⟨front, rfl, hitem⟩
    dsimp only at hmore
    split at hmore
    · rename_i hcomma
      rcases Option.bind_eq_some_iff.mp hmore with ⟨⟨others, left⟩, hothers, hpair⟩
      cases hpair
      rcases ih hothers with ⟨body, rfl, hbody⟩
      rw [expect_eq_some] at hcomma
      subst hcomma
      exact ⟨front ++ ',' :: body, by simp, more hitem hbody⟩
    · rcases Option.bind_eq_some_iff.mp hmore with ⟨left, hclose, hpair⟩
      cases hpair
      rw [expect_eq_some] at hclose
      subst hclose
      exact ⟨front, rfl, last hitem⟩

theorem readList_empty {close : Char} (read : Reader α) {blank : List Char} (h : IsBlank blank)
    (hclose : isBlank close = false) (rest : List Char) :
    readList close read (blank ++ close :: rest) = some ([], rest) := by
  have hskip : skipBlanks (close :: rest) = close :: rest :=
    skipBlanks_of_head (by simpa using hclose)
  rw [readList, skipBlanks_append h, hskip, expect_self]

/-- A text that begins with something else than a closing character, blanks aside. -/
def Opens (close : Char) (text : List Char) : Prop :=
  ∃ before body, text = before ++ body ∧ IsBlank before ∧ Begins close body

theorem Opens.append {close : Char} {text : List Char} (h : Opens close text)
    (rest : List Char) : Opens close (text ++ rest) := by
  rcases h with ⟨before, body, rfl, blank, c, tail, rfl, hc⟩
  exact ⟨before, c :: tail ++ rest, List.append_assoc .., blank, c, tail ++ rest, rfl, hc⟩

theorem readList_of_opens {close : Char} {read : Reader α} {text : List Char}
    (h : Opens close text) : readList close read text = readItems close read text.length text := by
  rcases h with ⟨before, body, rfl, blank, begins⟩
  have hskip := begins.skipBlanks blank []
  rw [List.append_nil, List.append_nil] at hskip
  rcases begins with ⟨c, tail, rfl, _, hclose⟩
  rw [readList, hskip, expect_eq_none hclose]

/-! ## Values -/

/-- A value begins with something else than a blank or a closing bracket. -/
theorem SpellsValue.begins {value : Json} {body : List Char} (h : SpellsValue value body) :
    Begins ']' body := by
  cases h with
  | null => exact ⟨_, _, rfl, by decide⟩
  | @number literal wellFormed =>
    rcases exists_cons_of_isNumber wellFormed with ⟨c, tail, hliteral, hc⟩
    refine ⟨c, tail, hliteral, ?_, ?_⟩
    · rw [← Bool.not_eq_true]
      intro hblank
      simp only [isBlank, Bool.or_eq_true, decide_eq_true_eq] at hblank
      rcases hblank with ((rfl | rfl) | rfl) | rfl <;> cases hc
    · rintro rfl
      cases hc
  | string spelt =>
    cases spelt
    exact ⟨_, _, rfl, by decide⟩
  | noItems => exact ⟨_, _, rfl, by decide⟩
  | items => exact ⟨_, _, rfl, by decide⟩
  | noMembers => exact ⟨_, _, rfl, by decide⟩
  | members => exact ⟨_, _, rfl, by decide⟩

theorem SpellsElement.opens {value : Json} {text : List Char} (h : SpellsElement value text) :
    Opens ']' text := by
  cases h with
  | @padded _ before body after blankBefore spelt _ =>
    exact Opens.append ⟨before, body, rfl, blankBefore, spelt.begins⟩ after

theorem SpellsItems.opens {items : List Json} {body : List Char} (h : SpellsItems items body) :
    Opens ']' body := by
  cases h with
  | last spelt => exact spelt.opens
  | more spelt _ => exact spelt.opens.append _

theorem SpellsName.opens {name : String} {front : List Char} (h : SpellsName name front) :
    Opens '}' front := by
  cases h with
  | @padded before quoted after blankBefore spelt _ =>
    cases spelt
    exact Opens.append ⟨before, _, rfl, blankBefore, _, _, rfl, by decide⟩ after

theorem SpellsMembers.opens {members : List (String × Json)} {body : List Char}
    (h : SpellsMembers members body) : Opens '}' body := by
  cases h with
  | last named _ => exact named.opens.append _
  | more named _ _ => exact (named.opens.append _).append _

theorem readName_of_spells {name : String} {front rest : List Char} (h : SpellsName name front)
    (ends : Ends rest) : padded readString (front ++ rest) = some (name, rest) := by
  cases h with
  | padded blankBefore spelt blankAfter =>
    have hread := readString_of_spells spelt
    cases spelt
    have begins : ∀ body, Begins '}' ('"' :: body) := fun body => ⟨_, _, rfl, by decide⟩
    exact padded_of_read blankBefore (begins _) blankAfter ends (hread _)

theorem readMember_of_spells {read : Reader Json} {name : String} {value : Json}
    {front text rest : List Char} (named : SpellsName name front)
    (hread : padded read (text ++ rest) = some (value, rest)) :
    readMember read (front ++ ':' :: text ++ rest) = some ((name, value), rest) := by
  rw [readMember, List.append_assoc, List.cons_append,
    readName_of_spells named (ends_cons (by simp) _)]
  simp [hread]

theorem readValue_number {literal : String} (h : isNumber literal.toList = true) (depth : Nat)
    {rest : List Char} (ends : ∀ c ∈ rest.head?, isNumberChar c = false) :
    readValue (depth + 1) (literal.toList ++ rest) = some (number literal, rest) := by
  have hread := readNumber_of_isNumber h ends
  rcases exists_cons_of_isNumber h with ⟨c, tail, hliteral, hc⟩
  have hother : c ≠ 'n' ∧ c ≠ '"' ∧ c ≠ '[' ∧ c ≠ '{' := by
    refine ⟨?_, ?_, ?_, ?_⟩ <;> (rintro rfl; cases hc)
  rw [hliteral] at hread ⊢
  rw [List.cons_append] at hread ⊢
  rw [readValue, if_neg hother.1, if_neg hother.2.1, if_neg hother.2.2.1, if_neg hother.2.2.2,
    hread]
  rfl

-- The induction is on the spelling.  The length bounds the depth, since a bracket is a
-- character, and it bounds the number of items, since an item takes one at least.
mutual

/-- The reader finds a value in front of a text that it is spelt in. -/
theorem readValue_of_spells {value : Json} {body : List Char} (h : SpellsValue value body)
    {depth : Nat} (hdepth : body.length ≤ depth) {rest : List Char}
    (ends : ∀ c ∈ rest.head?, isNumberChar c = false) :
    readValue depth (body ++ rest) = some (value, rest) := by
  cases depth with
  | zero =>
    rcases h.begins with ⟨c, tail, rfl, _⟩
    cases hdepth
  | succ depth =>
    cases h with
    | null => rfl
    | number wellFormed => exact readValue_number wellFormed depth ends
    | string spelt =>
      have hread := readString_of_spells spelt rest
      cases spelt
      simp only [List.cons_append] at hread ⊢
      rw [readValue, if_neg (by decide), if_pos rfl, hread]
      rfl
    | noItems isBlank =>
      have hread := @readList_empty _ ']' (padded (readValue depth)) _ isBlank rfl rest
      simp [readValue, hread]
    | @items items body spelt =>
      simp only [List.length_append, List.length_cons, List.length_nil] at hdepth
      have hread := @readItems_of_spells _ _ spelt depth (body ++ ']' :: rest).length (by omega)
        (by simp) rest
      rw [← readList_of_opens (spelt.opens.append _)] at hread
      simp [readValue, hread]
    | noMembers isBlank =>
      have hread := @readList_empty _ '}' (readMember (readValue depth)) _ isBlank rfl rest
      simp [readValue, hread]
    | @members members body spelt =>
      simp only [List.length_append, List.length_cons, List.length_nil] at hdepth
      have hread := @readMembers_of_spells _ _ spelt depth (body ++ '}' :: rest).length
        (by omega) (by simp) rest
      rw [← readList_of_opens (spelt.opens.append _)] at hread
      simp [readValue, hread]

theorem readElement_of_spells {value : Json} {text : List Char} (h : SpellsElement value text)
    {depth : Nat} (hdepth : text.length ≤ depth) {rest : List Char} (ends : Ends rest) :
    padded (readValue depth) (text ++ rest) = some (value, rest) := by
  cases h with
  | padded blankBefore spelt blankAfter =>
    simp only [List.length_append] at hdepth
    exact padded_of_read blankBefore spelt.begins blankAfter ends
      (readValue_of_spells spelt (by omega) (ends.isNumberChar_eq_false blankAfter))

theorem readItems_of_spells {items : List Json} {body : List Char} (h : SpellsItems items body)
    {depth count : Nat} (hdepth : body.length ≤ depth) (hcount : body.length < count)
    (rest : List Char) :
    readItems ']' (padded (readValue depth)) count (body ++ ']' :: rest) = some (items, rest) := by
  cases h with
  | last spelt =>
    cases count with
    | zero => omega
    | succ count =>
      exact readItems_last (by decide)
        (readElement_of_spells spelt hdepth (ends_cons (by simp) rest)) count
  | more spelt others =>
    cases count with
    | zero => omega
    | succ count =>
      simp only [List.length_append, List.length_cons] at hdepth hcount
      rw [List.append_assoc, List.cons_append]
      exact readItems_more (readElement_of_spells spelt (by omega) (ends_cons (by simp) _))
        (readItems_of_spells others (by omega) (by omega) rest)

theorem readMembers_of_spells {members : List (String × Json)} {body : List Char}
    (h : SpellsMembers members body) {depth count : Nat} (hdepth : body.length ≤ depth)
    (hcount : body.length < count) (rest : List Char) :
    readItems '}' (readMember (readValue depth)) count (body ++ '}' :: rest) =
      some (members, rest) := by
  cases h with
  | last named spelt =>
    cases count with
    | zero => omega
    | succ count =>
      simp only [List.length_append, List.length_cons] at hdepth
      exact readItems_last (by decide) (readMember_of_spells named
        (readElement_of_spells spelt (by omega) (ends_cons (by simp) rest))) count
  | more named spelt others =>
    cases count with
    | zero => omega
    | succ count =>
      simp only [List.length_append, List.length_cons] at hdepth hcount
      rw [List.append_assoc, List.cons_append]
      exact readItems_more (readMember_of_spells named
        (readElement_of_spells spelt (by omega) (ends_cons (by simp) _)))
        (readMembers_of_spells others (by omega) (by omega) rest)

end

/-! ## Nothing else is found -/

theorem finds_readName : Finds (padded readString) SpellsName := by
  intro text rest name h
  rcases read_of_padded h with ⟨before, middle, after, hbefore, hafter, rfl, hread⟩
  rcases finds_readString hread with ⟨quoted, rfl, hquoted⟩
  exact ⟨before ++ quoted ++ after, by simp, .padded hbefore hquoted hafter⟩

theorem Finds.element {read : Reader Json} (finds : Finds read SpellsValue) :
    Finds (padded read) SpellsElement := by
  intro text rest value h
  rcases read_of_padded h with ⟨before, middle, after, hbefore, hafter, rfl, hread⟩
  rcases finds hread with ⟨body, rfl, hbody⟩
  exact ⟨before ++ body ++ after, by simp, .padded hbefore hbody hafter⟩

/-- How a member may be spelt. -/
def SpellsMember (member : String × Json) (text : List Char) : Prop :=
  ∃ front behind, text = front ++ ':' :: behind ∧ SpellsName member.1 front ∧
    SpellsElement member.2 behind

theorem Finds.member {read : Reader Json} (finds : Finds read SpellsValue) :
    Finds (readMember read) SpellsMember := by
  intro text rest member h
  rcases Option.bind_eq_some_iff.mp h with ⟨⟨name, behind⟩, hname, hmore⟩
  rcases Option.bind_eq_some_iff.mp hmore with ⟨inside, hcolon, hmore⟩
  rcases Option.bind_eq_some_iff.mp hmore with ⟨⟨value, left⟩, hvalue, hpair⟩
  cases hpair
  rcases finds_readName hname with ⟨front, rfl, hfront⟩
  rcases finds.element hvalue with ⟨back, rfl, hback⟩
  rw [expect_eq_some] at hcolon
  subst hcolon
  exact ⟨front ++ ':' :: back, by simp, front, back, rfl, hfront, hback⟩

/-- What is read as a list is closed at once or made of items. -/
theorem readItems_of_readList {close : Char} {read : Reader α} {text rest : List Char}
    {items : List α} (h : readList close read text = some (items, rest)) :
    (items = [] ∧ ∃ blank, IsBlank blank ∧ text = blank ++ close :: rest) ∨
      readItems close read text.length text = some (items, rest) := by
  rw [readList] at h
  split at h
  · rename_i hclose
    cases h
    rcases exists_skipBlanks text with ⟨blank, hblank, htext⟩
    rw [expect_eq_some.mp hclose] at htext
    exact .inl ⟨rfl, blank, hblank, htext⟩
  · exact .inr h

theorem Finds.array {read : Reader Json} (finds : Finds read SpellsValue)
    {text rest : List Char} {items : List Json}
    (h : readList ']' (padded read) text = some (items, rest)) :
    ∃ front, '[' :: text = front ++ rest ∧ SpellsValue (.array items) front := by
  rcases readItems_of_readList h with ⟨rfl, blank, hblank, rfl⟩ | hitems
  · exact ⟨'[' :: blank ++ [']'], by simp, .noItems hblank⟩
  · rcases spells_of_readItems finds.element SpellsItems.last SpellsItems.more hitems with
      ⟨body, rfl, hbody⟩
    exact ⟨'[' :: body ++ [']'], by simp, .items hbody⟩

theorem Finds.object {read : Reader Json} (finds : Finds read SpellsValue)
    {text rest : List Char} {members : List (String × Json)}
    (h : readList '}' (readMember read) text = some (members, rest)) :
    ∃ front, '{' :: text = front ++ rest ∧ SpellsValue (.object members) front := by
  rcases readItems_of_readList h with ⟨rfl, blank, hblank, rfl⟩ | hmembers
  · exact ⟨'{' :: blank ++ ['}'], by simp, .noMembers hblank⟩
  · have last : ∀ {member text}, SpellsMember member text → SpellsMembers [member] text := by
      rintro member text ⟨front, back, rfl, hname, hvalue⟩
      exact .last hname hvalue
    have more : ∀ {member text members rest}, SpellsMember member text →
        SpellsMembers members rest → SpellsMembers (member :: members) (text ++ ',' :: rest) := by
      rintro member text members rest ⟨front, back, rfl, hname, hvalue⟩ hothers
      exact .more hname hvalue hothers
    rcases spells_of_readItems finds.member last more hmembers with ⟨body, rfl, hbody⟩
    exact ⟨'{' :: body ++ ['}'], by simp, .members hbody⟩

/-- What the reader takes for a value is a spelling of it. -/
theorem finds_readValue (depth : Nat) : Finds (readValue depth) SpellsValue := by
  induction depth with
  | zero =>
    intro text rest value h
    cases h
  | succ depth ih =>
    intro text rest value h
    cases text with
    | nil => cases h
    | cons first text =>
      rw [readValue] at h
      split at h
      · rename_i hn
        subst hn
        rcases Option.bind_eq_some_iff.mp h with ⟨_, hu, h⟩
        rcases Option.bind_eq_some_iff.mp h with ⟨_, hl, h⟩
        rcases Option.bind_eq_some_iff.mp h with ⟨_, hl', hpair⟩
        cases hpair
        rw [expect_eq_some] at hu hl hl'
        subst hu hl hl'
        exact ⟨['n', 'u', 'l', 'l'], rfl, .null⟩
      split at h
      · rcases Option.bind_eq_some_iff.mp h with ⟨_, hread, hpair⟩
        cases hpair
        rcases finds_readString hread with ⟨quoted, hquoted, hspelt⟩
        exact ⟨quoted, hquoted, .string hspelt⟩
      split at h
      · rename_i hopen
        subst hopen
        rcases Option.bind_eq_some_iff.mp h with ⟨_, hread, hpair⟩
        cases hpair
        exact ih.array hread
      split at h
      · rename_i hopen
        subst hopen
        rcases Option.bind_eq_some_iff.mp h with ⟨_, hread, hpair⟩
        cases hpair
        exact ih.object hread
      · rcases Option.bind_eq_some_iff.mp h with ⟨_, hread, hpair⟩
        cases hpair
        rcases isNumber_of_readNumber hread with ⟨htext, hnumber⟩
        exact ⟨_, htext, .number hnumber⟩

/-! ## Texts -/

/-- Reading gives the value that a text denotes. -/
theorem read?_eq_some_iff {text : String} {value : Json} :
    read? text = some value ↔ Denotes text value := by
  constructor
  · intro h
    rcases Option.bind_eq_some_iff.mp h with ⟨⟨found, rest⟩, hread, hend⟩
    dsimp only at hend
    split at hend
    · rename_i hrest
      cases hend
      subst hrest
      rcases read_of_padded hread with ⟨before, middle, after, hbefore, hafter, htext, hmiddle⟩
      rcases finds_readValue _ hmiddle with ⟨body, rfl, hbody⟩
      rw [Denotes, htext, List.append_nil, ← List.append_assoc]
      exact .padded hbefore hbody hafter
    · cases hend
  · intro h
    have hends : Ends [] := by
      intro c hc
      cases hc
    have hread := readElement_of_spells h (Nat.le_refl _) hends
    rw [List.append_nil] at hread
    rw [read?, hread]
    rfl

example : Denotes " [\"\\u00E4\", 0.5e+1\t, []]\n"
    (.array [.string "ä", .number "0.5e+1", .array []]) :=
  read?_eq_some_iff.mp (by cbv)

/-- A text denotes one value at most. -/
theorem Denotes.unique {text : String} {first second : Json} (h : Denotes text first)
    (h' : Denotes text second) : first = second := by
  rw [← read?_eq_some_iff] at h h'
  rw [h] at h'
  exact Option.some_inj.mp h'

/-- A text that denotes a value denotes this value only. -/
theorem Denotes.iff_eq {text : String} {value : Json} (h : Denotes text value) (other : Json) :
    Denotes text other ↔ other = value := by
  constructor
  · intro h'
    exact h'.unique h
  · rintro rfl
    exact h

end CalendarStamp.Json
