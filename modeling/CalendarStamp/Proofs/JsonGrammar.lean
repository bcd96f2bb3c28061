import CalendarStamp.Json

/-!
# The grammar of JSON texts

Which texts are JSON, and which value a text denotes: values with blanks around
them, strings in which a character stands for itself or for an escape, numbers,
and lists of items and of members with commas between them.  Truth values are left
out, since no value here holds one.

The grammar says nothing about how such a text is found or read.

Main results:

- Definition `Denotes`: a text is JSON and denotes a value.
- Theorem `isNumberChar_of_isNumber`: which characters numbers are made of.
-/

namespace CalendarStamp.Json

/-! ## Blanks -/

/-- The characters that may stand between the parts of a text. -/
def isBlank (c : Char) : Bool :=
  c = ' ' || c = '\t' || c = '\n' || c = '\r'

/-- Whether a text is blanks only. -/
def IsBlank (text : List Char) : Prop :=
  ∀ c ∈ text, isBlank c = true

/-! ## Strings -/

/-- The value of a hexadecimal digit, of either case. -/
def hexValue? (c : Char) : Option Nat :=
  if '0' ≤ c ∧ c ≤ '9' then some (c.toNat - 48)
  else if 'a' ≤ c ∧ c ≤ 'f' then some (c.toNat - 87)
  else if 'A' ≤ c ∧ c ≤ 'F' then some (c.toNat - 55)
  else none

/-- The number that four hexadecimal digits stand for. -/
def codeUnit? (a b c d : Char) : Option Nat := do
  return 4096 * (← hexValue? a) + 256 * (← hexValue? b) + 16 * (← hexValue? c) + (← hexValue? d)

/-- The character that a backslash and a letter stand for. -/
def unescaped? (letter : Char) : Option Char :=
  match letter with
  | '"' => some '"'
  | '\\' => some '\\'
  | '/' => some '/'
  | 'b' => some '\x08'
  | 'f' => some '\x0c'
  | 'n' => some '\n'
  | 'r' => some '\r'
  | 't' => some '\t'
  | _ => none

/-- Whether a character may stand for itself between quotes. -/
def isPlain (c : Char) : Bool :=
  32 ≤ c.toNat && c ≠ '"' && c ≠ '\\'

/-- The code of the character that two code units stand for, the first of them one
of the 1024 high surrogates and the second one of the 1024 low ones. -/
def surrogates? (high low : Nat) : Option Nat :=
  if 0xd800 ≤ high ∧ high < 0xdc00 ∧ 0xdc00 ≤ low ∧ low < 0xe000 then
    some (0x10000 + 0x400 * (high - 0xd800) + (low - 0xdc00))
  else
    none

/-- How a character may be spelt between quotes. -/
inductive SpellsChar (c : Char) : List Char → Prop
  | plain (itself : isPlain c = true) : SpellsChar c [c]
  | escape {letter : Char} (means : unescaped? letter = some c) : SpellsChar c ['\\', letter]
  | code {k l m n : Char} (means : codeUnit? k l m n = some c.toNat) :
      SpellsChar c ['\\', 'u', k, l, m, n]
  | codes {k l m n p q r s : Char} {high low : Nat} (first : codeUnit? k l m n = some high)
      (second : codeUnit? p q r s = some low) (means : surrogates? high low = some c.toNat) :
      SpellsChar c ['\\', 'u', k, l, m, n, '\\', 'u', p, q, r, s]

/-- How characters may be spelt between quotes, one after the other. -/
inductive SpellsChars : List Char → List Char → Prop
  | nil : SpellsChars [] []
  | cons {c : Char} {text spelling rest : List Char} (first : SpellsChar c spelling)
      (others : SpellsChars text rest) : SpellsChars (c :: text) (spelling ++ rest)

/-- How a text may be spelt with its quotes. -/
inductive SpellsString (text : String) : List Char → Prop
  | quoted {body : List Char} (chars : SpellsChars text.toList body) :
      SpellsString text ('"' :: body ++ ['"'])

/-! ## Numbers -/

/-- How far a number has been spelt. -/
inductive NumberPart
  | start
  | sign
  | zero
  | whole
  | point
  | fraction
  | mark
  | markSign
  | exponent
deriving DecidableEq

namespace NumberPart

/-- What follows when a number goes on with a character.  A zero in front ends the
whole part, and a point or a mark of an exponent needs digits behind it. -/
def next? (part : NumberPart) (c : Char) : Option NumberPart :=
  match part with
  | start => if c = '-' then some sign else first? c
  | sign => first? c
  | zero => tail? c
  | whole => if c.isDigit then some whole else tail? c
  | point => if c.isDigit then some fraction else none
  | fraction => if c.isDigit then some fraction else mark? c
  | mark => if c = '+' ∨ c = '-' then some markSign else digit? c
  | markSign => digit? c
  | exponent => digit? c
where
  /-- The first digit of the whole part. -/
  first? (c : Char) : Option NumberPart :=
    if c = '0' then some zero else if c.isDigit then some whole else none
  /-- What may follow the whole part. -/
  tail? (c : Char) : Option NumberPart :=
    if c = '.' then some point else mark? c
  /-- The mark of an exponent. -/
  mark? (c : Char) : Option NumberPart :=
    if c = 'e' ∨ c = 'E' then some mark else none
  /-- A digit of an exponent. -/
  digit? (c : Char) : Option NumberPart :=
    if c.isDigit then some exponent else none

/-- Whether a number may end here. -/
def ends : NumberPart → Bool
  | zero | whole | fraction | exponent => true
  | _ => false

/-- What part of a number a text leads to. -/
def after? (part : NumberPart) (text : List Char) : Option NumberPart :=
  text.foldlM next? part

end NumberPart

/-- Whether a text is a number. -/
def isNumber (literal : List Char) : Bool :=
  (NumberPart.start.after? literal).any NumberPart.ends

/-- The characters that numbers are made of. -/
def isNumberChar (c : Char) : Bool :=
  c.isDigit || c = '-' || c = '+' || c = '.' || c = 'e' || c = 'E'

namespace NumberPart

/-- A number goes on with a character that numbers are made of. -/
theorem isNumberChar_of_next? {part after : NumberPart} {c : Char}
    (h : part.next? c = some after) : isNumberChar c = true := by
  have hzero : c = '0' → c.isDigit = true := by rintro rfl; rfl
  cases part <;> simp only [next?, next?.first?, next?.tail?, next?.mark?, next?.digit?] at h <;>
    grind [isNumberChar]

theorem after?_cons (part : NumberPart) (c : Char) (text : List Char) :
    part.after? (c :: text) = (part.next? c).bind fun next => next.after? text := by
  rw [after?, List.foldlM_cons]
  rfl

theorem after?_append (part : NumberPart) (front text : List Char) :
    part.after? (front ++ text) = (part.after? front).bind fun next => next.after? text := by
  rw [after?, List.foldlM_append]
  rfl

theorem isNumberChar_of_after? {part after : NumberPart} {text : List Char}
    (h : part.after? text = some after) : ∀ c ∈ text, isNumberChar c = true := by
  induction text generalizing part with
  | nil => simp
  | cons c text ih =>
    rw [after?_cons] at h
    rcases Option.bind_eq_some_iff.mp h with ⟨next, hnext, hrest⟩
    exact List.forall_mem_cons.mpr ⟨isNumberChar_of_next? hnext, ih hrest⟩

end NumberPart

/-- Numbers are made of these characters. -/
theorem isNumberChar_of_isNumber {literal : List Char} (h : isNumber literal = true) :
    ∀ c ∈ literal, isNumberChar c = true := by
  rcases Option.any_eq_true .. |>.mp h with ⟨part, hpart, _⟩
  exact NumberPart.isNumberChar_of_after? hpart

/-- A number begins with one of them. -/
theorem exists_cons_of_isNumber {literal : List Char} (h : isNumber literal = true) :
    ∃ first tail, literal = first :: tail ∧ isNumberChar first = true := by
  cases literal with
  | nil => cases h
  | cons first tail =>
    exact ⟨first, tail, rfl, isNumberChar_of_isNumber h first List.mem_cons_self⟩

/-! ## Values -/

/-- How a name may be spelt in front of the colon of a member. -/
inductive SpellsName (name : String) : List Char → Prop
  | padded {before quoted after : List Char} (blankBefore : IsBlank before)
      (string : SpellsString name quoted) (blankAfter : IsBlank after) :
      SpellsName name (before ++ quoted ++ after)

mutual

/-- How a value may be spelt. -/
inductive SpellsValue : Json → List Char → Prop
  | null : SpellsValue .null ['n', 'u', 'l', 'l']
  | number {literal : String} (wellFormed : isNumber literal.toList = true) :
      SpellsValue (.number literal) literal.toList
  | string {text : String} {quoted : List Char} (spelt : SpellsString text quoted) :
      SpellsValue (.string text) quoted
  | noItems {blank : List Char} (isBlank : IsBlank blank) :
      SpellsValue (.array []) ('[' :: blank ++ [']'])
  | items {items : List Json} {body : List Char} (spelt : SpellsItems items body) :
      SpellsValue (.array items) ('[' :: body ++ [']'])
  | noMembers {blank : List Char} (isBlank : IsBlank blank) :
      SpellsValue (.object []) ('{' :: blank ++ ['}'])
  | members {members : List (String × Json)} {body : List Char}
      (spelt : SpellsMembers members body) :
      SpellsValue (.object members) ('{' :: body ++ ['}'])

/-- How a value may be spelt with blanks around it. -/
inductive SpellsElement : Json → List Char → Prop
  | padded {value : Json} {before body after : List Char} (blankBefore : IsBlank before)
      (spelt : SpellsValue value body) (blankAfter : IsBlank after) :
      SpellsElement value (before ++ body ++ after)

/-- How the items of an array may be spelt, with commas between them. -/
inductive SpellsItems : List Json → List Char → Prop
  | last {item : Json} {text : List Char} (spelt : SpellsElement item text) :
      SpellsItems [item] text
  | more {item : Json} {items : List Json} {text rest : List Char}
      (spelt : SpellsElement item text) (others : SpellsItems items rest) :
      SpellsItems (item :: items) (text ++ ',' :: rest)

/-- How the members of an object may be spelt, with commas between them. -/
inductive SpellsMembers : List (String × Json) → List Char → Prop
  | last {name : String} {value : Json} {front text : List Char} (named : SpellsName name front)
      (spelt : SpellsElement value text) : SpellsMembers [(name, value)] (front ++ ':' :: text)
  | more {name : String} {value : Json} {members : List (String × Json)}
      {front text rest : List Char} (named : SpellsName name front)
      (spelt : SpellsElement value text) (others : SpellsMembers members rest) :
      SpellsMembers ((name, value) :: members) (front ++ ':' :: text ++ ',' :: rest)

end

/-- Whether a text is JSON and denotes a value. -/
def Denotes (text : String) (value : Json) : Prop :=
  SpellsElement value text.toList

end CalendarStamp.Json
