import CalendarStamp.Proofs.JsonGrammar
import CalendarStamp.Proofs.ShortestDecimals
import CalendarStamp.View

/-!
# Numbers as JSON writes them

Whole numbers, doubles and singles are shown by texts that the grammar of JSON
accepts as numbers.  What could go wrong is a zero in front of other digits, or a
point or an exponent without digits behind it.  The first digit of a positive number
is not zero, a point always gets a digit behind it, and an exponent has a sign and
digits.  So it matters that the search for the shortest decimal never ends without
digits.

Main results:

- Theorem `isNumber_toString`: a whole number is shown as a number.
- Theorem `isUnsigned_write`: a positive decimal is written as a number without a sign.
- Theorem `isNumber_of_text?`: a finite double or single is shown as a number.
-/

namespace CalendarStamp

namespace Json

/-! ## Digits -/

/-- Whether a text is decimal digits only. -/
def IsDigits (text : List Char) : Prop :=
  ∀ c ∈ text, c.isDigit = true

/-- Whether a text is a number to which a sign may be added. -/
def isUnsigned (literal : List Char) : Bool :=
  (NumberPart.sign.after? literal).any NumberPart.ends

theorem IsDigits.append {front text : List Char} (hfront : IsDigits front)
    (htext : IsDigits text) : IsDigits (front ++ text) := by
  intro c hc
  rcases List.mem_append.mp hc with h | h
  · exact hfront c h
  · exact htext c h

theorem isDigits_replicate (count : Nat) : IsDigits (List.replicate count '0') := by
  intro c hc
  rw [List.eq_of_mem_replicate hc]
  rfl

theorem isDigits_toDigits (n : Nat) : IsDigits (Nat.toDigits 10 n) :=
  fun _ hc => Nat.isDigit_of_mem_toDigits (by decide) (by decide) hc

/-- The digits of a positive number begin with another digit than zero. -/
theorem exists_toDigits {n : Nat} (h : 0 < n) :
    ∃ first digits, Nat.toDigits 10 n = first :: digits ∧ first ≠ '0' := by
  induction n using Nat.strongRecOn with
  | ind n ih =>
    by_cases hsmall : n < 10
    · refine ⟨n.digitChar, [], Nat.toDigits_of_lt_base hsmall, ?_⟩
      rw [ne_eq, Nat.digitChar_eq_zero]
      omega
    · rcases ih (n / 10) (by omega) (by omega) with ⟨first, digits, hdigits, hfirst⟩
      refine ⟨first, digits ++ [(n % 10).digitChar], ?_, hfirst⟩
      rw [Nat.toDigits_of_base_le (by decide) (by omega), hdigits, List.cons_append]

namespace NumberPart

/-- A part of a number that any digits continue. -/
def IsOpen (part : NumberPart) : Prop :=
  ∀ c, c.isDigit = true → part.next? c = some part

theorem after?_digits {part : NumberPart} (h : part.IsOpen) {text : List Char}
    (digits : IsDigits text) : part.after? text = some part := by
  induction text with
  | nil => rfl
  | cons c text ih =>
    rw [after?_cons, h c (digits c List.mem_cons_self), Option.bind_some]
    exact ih fun d hd => digits d (List.mem_cons_of_mem _ hd)

theorem isOpen_whole : whole.IsOpen := fun _ h => if_pos h

theorem isOpen_fraction : fraction.IsOpen := fun _ h => if_pos h

theorem isOpen_exponent : exponent.IsOpen := fun _ h => if_pos h

/-- Digits of which the first is not zero are the whole part of a number. -/
theorem after?_wholePart {first : Char} {digits : List Char} (hdigits : IsDigits (first :: digits))
    (hfirst : first ≠ '0') : sign.after? (first :: digits) = some whole := by
  have hdigit := hdigits first List.mem_cons_self
  have hnext : sign.next? first = some whole := by
    rw [next?, next?.first?, if_neg hfirst, if_pos hdigit]
  rw [after?_cons, hnext, Option.bind_some]
  exact after?_digits isOpen_whole fun d hd => hdigits d (List.mem_cons_of_mem _ hd)

/-- Digits behind a point are the fraction of a number. -/
theorem after?_fractionPart {text : List Char} (hdigits : IsDigits text) (hsome : text ≠ []) :
    point.after? text = some fraction := by
  rcases List.exists_cons_of_ne_nil hsome with ⟨first, rest, rfl⟩
  have hnext : point.next? first = some fraction := if_pos (hdigits first List.mem_cons_self)
  rw [after?_cons, hnext, Option.bind_some]
  exact after?_digits isOpen_fraction fun d hd => hdigits d (List.mem_cons_of_mem _ hd)

/-- A sign and digits behind a mark are the exponent of a number. -/
theorem after?_exponentPart {sign : Char} (hsign : sign = '+' ∨ sign = '-') {text : List Char}
    (hdigits : IsDigits text) (hsome : text ≠ []) : mark.after? (sign :: text) = some exponent := by
  rcases List.exists_cons_of_ne_nil hsome with ⟨first, rest, rfl⟩
  have hmark : mark.next? sign = some markSign := if_pos hsign
  have hnext : markSign.next? first = some exponent := if_pos (hdigits first List.mem_cons_self)
  rw [after?_cons, hmark, Option.bind_some, after?_cons, hnext, Option.bind_some]
  exact after?_digits isOpen_exponent fun d hd => hdigits d (List.mem_cons_of_mem _ hd)

/-- A whole part, a point and digits. -/
theorem after?_pointed {front : List Char}
    (hfront : sign.after? front = some zero ∨ sign.after? front = some whole) {text : List Char}
    (hdigits : IsDigits text) (hsome : text ≠ []) :
    sign.after? (front ++ '.' :: text) = some fraction := by
  have hpoint := after?_fractionPart hdigits hsome
  rcases hfront with h | h <;> rw [after?_append, h, Option.bind_some, after?_cons] <;> exact hpoint

/-- A mark, a sign and digits may follow the whole part or the fraction. -/
theorem after?_marked {front : List Char}
    (hfront : sign.after? front = some whole ∨ sign.after? front = some fraction) {c : Char}
    (hsign : c = '+' ∨ c = '-') {text : List Char} (hdigits : IsDigits text) (hsome : text ≠ []) :
    sign.after? (front ++ 'e' :: c :: text) = some exponent := by
  have hmark := after?_exponentPart hsign hdigits hsome
  rcases hfront with h | h <;> rw [after?_append, h, Option.bind_some, after?_cons] <;> exact hmark

end NumberPart

/-! ## Signs -/

/-- A number begins as it does behind a sign. -/
theorem isNumber_of_isUnsigned {literal : List Char} (h : isUnsigned literal = true) :
    isNumber literal = true := by
  cases literal with
  | nil => cases h
  | cons c literal =>
    have hsign : c ≠ '-' := by
      rintro rfl
      cases h
    have hnext : NumberPart.start.next? c = NumberPart.sign.next? c := if_neg hsign
    rw [isUnsigned, NumberPart.after?_cons] at h
    rw [isNumber, NumberPart.after?_cons, hnext]
    exact h

/-- A sign in front leaves a number. -/
theorem isNumber_minus (literal : List Char) : isNumber ('-' :: literal) = isUnsigned literal :=
  rfl

/-! ## Whole numbers -/

theorem isUnsigned_toDigits (n : Nat) : isUnsigned (Nat.toDigits 10 n) = true := by
  cases n with
  | zero => rfl
  | succ n =>
    have hdigits := isDigits_toDigits (n + 1)
    rcases exists_toDigits (Nat.succ_pos n) with ⟨first, digits, htext, hfirst⟩
    rw [htext] at hdigits ⊢
    rw [isUnsigned, NumberPart.after?_wholePart hdigits hfirst]
    rfl

/-- A whole number is shown as a number. -/
theorem isNumber_toString (n : Nat) : isNumber (toString n).toList = true := by
  rw [Nat.toString_eq_ofList_toDigits, String.toList_ofList]
  exact isNumber_of_isUnsigned (isUnsigned_toDigits n)

end Json

/-! ## Decimals -/

namespace Decimal

open Json

theorem isUnsigned_positional {first : Char} {digits : List Char}
    (hdigits : IsDigits (first :: digits)) (hfirst : first ≠ '0') (pointAfter : Int) :
    isUnsigned (Style.positional (first :: digits) pointAfter) = true := by
  unfold Style.positional
  split
  · have hfraction : IsDigits (List.replicate (-pointAfter).toNat '0' ++ first :: digits) :=
      (isDigits_replicate _).append hdigits
    have hzero : NumberPart.sign.after? ['0'] = some .zero := rfl
    have hafter := NumberPart.after?_pointed (.inl hzero) hfraction (by simp)
    rw [List.singleton_append] at hafter
    rw [isUnsigned, hafter]
    rfl
  · rename_i hpositive
    rcases Nat.exists_eq_succ_of_ne_zero (n := pointAfter.toNat) (by omega) with ⟨count, hcount⟩
    dsimp only
    rw [hcount]
    have hwhole : IsDigits ((first :: digits).take (count + 1) ++
        List.replicate (count + 1 - (first :: digits).length) '0') :=
      IsDigits.append (fun c hc => hdigits c (List.mem_of_mem_take hc)) (isDigits_replicate _)
    have hfraction : IsDigits (if (first :: digits).drop (count + 1) = [] then ['0']
        else (first :: digits).drop (count + 1)) := by
      split
      · exact isDigits_replicate 1
      · exact fun c hc => hdigits c (List.mem_of_mem_drop hc)
    rw [List.take_succ_cons, List.cons_append] at hwhole ⊢
    have hafter := NumberPart.after?_pointed (.inr (NumberPart.after?_wholePart hwhole hfirst))
      hfraction (by split <;> simp_all)
    rw [isUnsigned, hafter]
    rfl

theorem isUnsigned_scientific {first : Char} {digits : List Char}
    (hdigits : IsDigits (first :: digits)) (hfirst : first ≠ '0') (exponent : Int) :
    isUnsigned (Style.scientific (first :: digits) exponent) = true := by
  have hone : IsDigits [first] := fun c hc => hdigits c (by simp_all)
  have hwhole := NumberPart.after?_wholePart hone hfirst
  have hsign : (if exponent < 0 then '-' else '+') = '+' ∨
      (if exponent < 0 then '-' else '+') = '-' := by
    split <;> simp
  have hexponent := isDigits_toDigits exponent.natAbs
  unfold Style.scientific
  cases digits with
  | nil =>
    have hafter := NumberPart.after?_marked (.inl hwhole) hsign hexponent Nat.toDigits_ne_nil
    dsimp only
    rw [isUnsigned, hafter]
    rfl
  | cons second digits =>
    have hfraction : IsDigits (second :: digits) :=
      fun c hc => hdigits c (List.mem_cons_of_mem _ hc)
    have hpointed := NumberPart.after?_pointed (.inr hwhole) hfraction (List.cons_ne_nil _ _)
    have hafter := NumberPart.after?_marked (.inr hpointed) hsign hexponent Nat.toDigits_ne_nil
    dsimp only
    rw [isUnsigned]
    rw [List.singleton_append] at hafter
    rw [hafter]
    rfl

/-- A positive decimal is written as a number without a sign. -/
theorem isUnsigned_write (style : Style) {numeral : Numeral} (h : 0 < numeral.digits) :
    isUnsigned (style.write numeral) = true := by
  have hdigits := isDigits_toDigits numeral.digits
  rcases exists_toDigits h with ⟨first, digits, htext, hfirst⟩
  rw [htext] at hdigits
  rw [Style.write, htext]
  split
  · exact isUnsigned_positional hdigits hfirst _
  · exact isUnsigned_scientific hdigits hfirst _

/-- A finite double or single is shown as a number. -/
theorem isNumber_of_text? {format : BinaryFormat} (hwidth : format.fractionWidth ≤ 52)
    {style : Style} {bits : Nat} {text : String} (h : text? format style bits = some text) :
    isNumber text.toList = true := by
  unfold text? at h
  dsimp only at h
  split at h
  · cases h
  · cases h
    have hmagnitude : isUnsigned
        (if (format.parts bits).exponent = 0 ∧ (format.parts bits).fraction = 0 then
          ['0', '.', '0']
        else
          style.write (shortest (.ofParts format (format.parts bits)))) = true := by
      split
      · rfl
      · rename_i hzero
        have hfraction : (format.parts bits).fraction < 1 <<< format.fractionWidth :=
          Nat.mod_lt _ (by rw [Nat.one_shiftLeft]; exact Nat.two_pow_pos _)
        exact isUnsigned_write style
          (shortest_digits_pos (Rounding.isProper_ofParts hwidth hfraction hzero))
    rw [String.toList_ofList]
    split
    · rw [isNumber_minus]
      exact hmagnitude
    · exact isNumber_of_isUnsigned hmagnitude

end Decimal

end CalendarStamp
