/-!
# Blanks and separated lists

Lists in settings are written as texts with a separator, and people put blanks
around the items.  A blank is any character with the Unicode property
`White_Space`.

Main results:

- Theorem `split_ne_nil`: every text has at least one item, though it may be empty.
- Theorem `intercalate_split`: the items with the separators between them make
  up the text.
-/

namespace CalendarStamp.Text

/-! ## Blanks -/

/-- The ranges of the codes of the blanks. -/
def blankRanges : List (Nat × Nat) :=
  [(0x09, 0x0d), (0x20, 0x20), (0x85, 0x85), (0xa0, 0xa0), (0x1680, 0x1680), (0x2000, 0x200a),
   (0x2028, 0x2029), (0x202f, 0x202f), (0x205f, 0x205f), (0x3000, 0x3000)]

/-- Whether a character is a blank. -/
def isBlank (c : Char) : Bool :=
  blankRanges.any fun (first, last) => first ≤ c.toNat && c.toNat ≤ last

/-- A text without the blanks at both ends. -/
def trim (text : List Char) : List Char :=
  ((text.dropWhile isBlank).reverse.dropWhile isBlank).reverse

/-! ## Separated items -/

variable {α : Type} [DecidableEq α]

/-- The parts of a text between separators. -/
def split (separator : α) : List α → List (List α)
  | [] => [[]]
  | c :: rest =>
    if c = separator then
      [] :: split separator rest
    else
      match split separator rest with
      | [] => [[c]]
      | part :: parts => (c :: part) :: parts

/-- There is always a first part. -/
theorem split_ne_nil (separator : α) (text : List α) : split separator text ≠ [] := by
  cases text with
  | nil => simp [split]
  | cons c rest =>
    simp only [split]
    split
    · simp
    · split <;> simp

/-- The parts with separators between them make up the text. -/
theorem intercalate_split (separator : α) (text : List α) :
    [separator].intercalate (split separator text) = text := by
  induction text with
  | nil => simp [split]
  | cons c rest ih =>
    simp only [split]
    have hne := split_ne_nil separator rest
    split
    · rename_i h
      subst h
      cases hparts : split c rest with
      | nil => contradiction
      | cons part parts =>
        rw [hparts] at ih
        simp only [List.intercalate, List.intersperse_cons_cons, List.flatten_cons,
          List.nil_append] at ih ⊢
        rw [ih]
        rfl
    · cases hparts : split separator rest with
      | nil => contradiction
      | cons part parts =>
        rw [hparts] at ih
        cases parts with
        | nil => simp_all [List.intercalate]
        | cons next parts =>
          simp only [List.intercalate, List.intersperse_cons_cons, List.flatten_cons,
            List.cons_append] at ih ⊢
          rw [ih]

end CalendarStamp.Text
