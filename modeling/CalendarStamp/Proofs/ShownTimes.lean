import CalendarStamp.Instant
import Mathlib

/-!
# Times that are shown

A point in time is shown as a date of the Gregorian calendar with a time of day.
Here the calendar is written down on its own: which years are leap years, how long
a month is, and how many seconds passed since the start of 1970 when all whole years
and months before a date are counted.  The text of a point in time names a date that
exists, and counting to this date gives back the number of seconds.  The numbers in
the text have fixed widths, so texts are in the order of the times they show.

Main results:

- Theorem `countYears_spec`: the year that a day falls into.
- Theorem `countMonths_spec`: the month that a day falls into.
- Theorem `days_dateOfDays`: the date of a day exists, and counting to it gives that day.
- Theorem `precedes_of_seconds_lt`: fewer seconds make an earlier date or time of day.
- Theorem `text_names_time`: the text of a point in time names it.
-/

namespace CalendarStamp.Instant

open Finset

/-! ## The Gregorian calendar -/

/-- Every fourth year is a leap year, except for full centuries that are not fourth ones. -/
def IsLeap (year : Nat) : Prop :=
  4 ∣ year ∧ (100 ∣ year → 400 ∣ year)

instance (year : Nat) : Decidable (IsLeap year) :=
  inferInstanceAs (Decidable (_ ∧ _))

/-- The number of days of a month. -/
def monthLength (year month : Nat) : Nat :=
  if month = 2 then (if IsLeap year then 29 else 28)
  else if month = 4 ∨ month = 6 ∨ month = 9 ∨ month = 11 then 30
  else 31

namespace Date

/-- Whether the calendar has the date, in 1970 or later. -/
structure IsValid (date : Date) : Prop where
  year : 1970 ≤ date.year
  month : 1 ≤ date.month ∧ date.month ≤ 12
  day : 1 ≤ date.day ∧ date.day ≤ monthLength date.year date.month

/-- The number of days from the first of January 1970 to a date: those of the whole
years in between, of the whole months before, and of the month itself. -/
def days (date : Date) : Nat :=
  ∑ year ∈ Ico 1970 date.year, ∑ month ∈ Icc 1 12, monthLength year month +
    ∑ month ∈ Ico 1 date.month, monthLength date.year month + (date.day - 1)

end Date

/-- A date with a time of day. -/
structure Time where
  date : Date
  hour : Nat
  minute : Nat
  second : Nat

namespace Time

/-- Whether there is such a date and such a time of day. -/
structure IsValid (time : Time) : Prop where
  date : time.date.IsValid
  hour : time.hour < 24
  minute : time.minute < 60
  second : time.second < 60

/-- The number of seconds since the start of 1970. -/
def seconds (time : Time) : Nat :=
  86400 * time.date.days + 3600 * time.hour + 60 * time.minute + time.second

end Time

/-! ## Counting off years and months -/

theorem isLeapYear_iff (year : Nat) : isLeapYear year = true ↔ IsLeap year := by
  simp only [isLeapYear, IsLeap, Bool.and_eq_true, Bool.or_eq_true, decide_eq_true_eq]
  omega

/-- The months of a year have the lengths that the calendar gives them. -/
theorem monthLengths_eq (year : Nat) :
    monthLengths year = (List.range' 1 12).map (monthLength year) := by
  by_cases h : IsLeap year
  · simp [monthLengths, isLeapYear_iff, monthLength, List.range', h]
  · simp [monthLengths, isLeapYear_iff, monthLength, List.range', h]

theorem yearLength_eq_sum_monthLength (year : Nat) :
    yearLength year = ∑ month ∈ Icc 1 12, monthLength year month := by
  by_cases h : IsLeap year
  · simp [yearLength, isLeapYear_iff, monthLength, h, sum_Icc_succ_top]
  · simp [yearLength, isLeapYear_iff, monthLength, h, sum_Icc_succ_top]

/-- Whole years are counted off up to the year that a day falls into. -/
theorem countYears_spec (year days : Nat) :
    year ≤ (countYears year days).1 ∧
      (countYears year days).2 < yearLength (countYears year days).1 ∧
      days = ∑ passed ∈ Ico year (countYears year days).1, yearLength passed +
        (countYears year days).2 := by
  fun_induction countYears year days with
  | case1 year days hday => simp [hday]
  | case2 year days hday ih =>
    rcases ih with ⟨hyear, hrest, hdays⟩
    refine ⟨by omega, hrest, ?_⟩
    rw [sum_eq_sum_Ico_succ_bot (by omega)]
    omega

/-- Whole months are counted off up to the month that a day falls into, provided that
the months reach to it. -/
theorem countMonths_spec (lengthOf : Nat → Nat) (count month days : Nat)
    (hdays : days < ∑ passed ∈ Ico month (month + count), lengthOf passed) :
    let found := countMonths month days ((List.range' month count).map lengthOf)
    month ≤ found.1 ∧ found.1 < month + count ∧ found.2 < lengthOf found.1 ∧
      days = ∑ passed ∈ Ico month found.1, lengthOf passed + found.2 := by
  induction count generalizing month days with
  | zero => simp at hdays
  | succ count ih =>
    rw [List.range'_succ, List.map_cons, countMonths]
    by_cases hday : days < lengthOf month
    · simp [hday]
    · rw [if_neg hday]
      rw [sum_eq_sum_Ico_succ_bot (by omega), show month + (count + 1) = month + 1 + count by omega]
        at hdays
      rcases ih (month + 1) (days - lengthOf month) (by omega) with ⟨hmonth, hlast, hrest, hsum⟩
      refine ⟨by omega, by omega, hrest, ?_⟩
      rw [sum_eq_sum_Ico_succ_bot (by omega)]
      omega

/-- The date of a day exists, and counting to it gives that day. -/
theorem days_dateOfDays (days : Nat) :
    (dateOfDays days).IsValid ∧ (dateOfDays days).days = days := by
  have hyears := countYears_spec epochYear days
  rcases hyear : countYears epochYear days with ⟨year, dayOfYear⟩
  simp only [hyear] at hyears
  rcases hyears with ⟨hepoch, hrest, hdays⟩
  have hmonths := countMonths_spec (monthLength year) 12 1 dayOfYear (by
    rwa [yearLength_eq_sum_monthLength] at hrest)
  rw [← monthLengths_eq] at hmonths
  rcases hmonth : countMonths 1 dayOfYear (monthLengths year) with ⟨month, dayOfMonth⟩
  simp only [hmonth] at hmonths
  rcases hmonths with ⟨hfirst, hlast, hday, hsum⟩
  have hdate : dateOfDays days = ⟨year, month, dayOfMonth + 1⟩ := by
    rw [dateOfDays, hyear]
    simp only [hmonth]
  rw [hdate]
  refine ⟨⟨hepoch, ⟨hfirst, by simp only; omega⟩, ⟨by simp, hday⟩⟩, ?_⟩
  simp only [Date.days, ← yearLength_eq_sum_monthLength, Nat.add_sub_cancel]
  simp only [epochYear] at hdays
  omega

/-- A year has 365 days at least, so it takes many days to get far. -/
theorem Date.year_le_days {date : Date} : 365 * (date.year - 1970) ≤ date.days := by
  have hyears : ∀ year ∈ Ico 1970 date.year, 365 ≤ ∑ month ∈ Icc 1 12, monthLength year month := by
    intro year _
    rw [← yearLength_eq_sum_monthLength, yearLength]
    split <;> omega
  have hsum := card_nsmul_le_sum _ _ _ hyears
  rw [Nat.card_Ico, smul_eq_mul] at hsum
  rw [days]
  omega

/-! ## The order of dates -/

/-- Whether a time comes before another one: the first of their numbers that differ decides. -/
def Time.Precedes (a b : Time) : Prop :=
  a.date.year < b.date.year ∨ a.date.year = b.date.year ∧
    (a.date.month < b.date.month ∨ a.date.month = b.date.month ∧
      (a.date.day < b.date.day ∨ a.date.day = b.date.day ∧
        (a.hour < b.hour ∨ a.hour = b.hour ∧
          (a.minute < b.minute ∨ a.minute = b.minute ∧ a.second < b.second))))

namespace Date

/-- The days into a month stay below the start of the next one. -/
theorem day_le_sum {date : Date} (h : date.IsValid) :
    ∑ month ∈ Ico 1 date.month, monthLength date.year month + (date.day - 1) <
      ∑ month ∈ Ico 1 (date.month + 1), monthLength date.year month := by
  rw [sum_Ico_succ_top h.month.1]
  have := h.day
  omega

theorem days_lt_of_year_lt {a b : Date} (ha : a.IsValid) (h : a.year < b.year) :
    a.days < b.days := by
  have hmonths : ∑ month ∈ Ico 1 (a.month + 1), monthLength a.year month ≤
      ∑ month ∈ Icc 1 12, monthLength a.year month := by
    apply sum_le_sum_of_subset
    intro month hmonth
    have := ha.month
    simp only [mem_Ico, mem_Icc] at hmonth ⊢
    omega
  have hyears : ∑ year ∈ Ico 1970 (a.year + 1), ∑ month ∈ Icc 1 12, monthLength year month ≤
      ∑ year ∈ Ico 1970 b.year, ∑ month ∈ Icc 1 12, monthLength year month :=
    sum_le_sum_of_subset (Ico_subset_Ico_right h)
  rw [sum_Ico_succ_top ha.year] at hyears
  have hday := day_le_sum ha
  unfold days
  omega

theorem days_lt_of_month_lt {a b : Date} (ha : a.IsValid) (hyear : a.year = b.year)
    (h : a.month < b.month) : a.days < b.days := by
  have hmonths : ∑ month ∈ Ico 1 (a.month + 1), monthLength a.year month ≤
      ∑ month ∈ Ico 1 b.month, monthLength a.year month :=
    sum_le_sum_of_subset (Ico_subset_Ico_right h)
  have hday := day_le_sum ha
  rw [days, days, ← hyear]
  omega

theorem days_lt_iff_of_month_eq {a b : Date} (ha : a.IsValid) (hb : b.IsValid)
    (hyear : a.year = b.year) (hmonth : a.month = b.month) : a.days < b.days ↔ a.day < b.day := by
  have := ha.day
  have := hb.day
  rw [days, days, ← hyear, ← hmonth]
  omega

end Date

/-- Fewer seconds make an earlier date or time of day. -/
theorem Time.precedes_of_seconds_lt {a b : Time} (ha : a.IsValid) (hb : b.IsValid)
    (h : a.seconds < b.seconds) : a.Precedes b := by
  have := ha.hour
  have := ha.minute
  have := ha.second
  have := hb.hour
  have := hb.minute
  have := hb.second
  have hdays : a.date.days ≤ b.date.days := by
    unfold seconds at h
    omega
  rcases lt_trichotomy a.date.year b.date.year with hyear | hyear | hyear
  · exact .inl hyear
  · refine .inr ⟨hyear, ?_⟩
    rcases lt_trichotomy a.date.month b.date.month with hmonth | hmonth | hmonth
    · exact .inl hmonth
    · refine .inr ⟨hmonth, ?_⟩
      have hless := Date.days_lt_iff_of_month_eq ha.date hb.date hyear hmonth
      have hmore := Date.days_lt_iff_of_month_eq hb.date ha.date hyear.symm hmonth.symm
      unfold seconds at h
      omega
    · exact absurd (Date.days_lt_of_month_lt hb.date hyear.symm hmonth) (by omega)
  · exact absurd (Date.days_lt_of_year_lt hb.date hyear) (by omega)

/-! ## Numbers of a fixed width -/

/-- Whether a text shows a number with a fixed number of decimal digits. -/
structure ShowsNumber (width n : Nat) (text : List Char) : Prop where
  length : text.length = width
  digits : ∀ c ∈ text, c.isDigit = true
  value : Nat.ofDigitChars 10 text 0 = n

theorem showsNumber_padded {width n : Nat} (hwidth : 0 < width) (h : n < 10 ^ width) :
    ShowsNumber width n (padded width n) where
  length := by
    have hlength := (Nat.length_toDigits_le_iff (by decide : 1 < 10) hwidth).mpr h
    rw [padded, List.length_append, List.length_replicate]
    omega
  digits := by
    intro c hc
    rcases List.mem_append.mp hc with hc | hc
    · rw [List.eq_of_mem_replicate hc]
      rfl
    · exact Nat.isDigit_of_mem_toDigits (by decide) (by decide) hc
  value := by
    rw [padded, Nat.ofDigitChars_append, Nat.ofDigitChars_replicate_zero, Nat.mul_zero,
      Nat.ofDigitChars_ten_toDigits]

/-- The first digit counts for a power of ten, and the others show the rest. -/
theorem ShowsNumber.exists_cons {width n : Nat} {text : List Char}
    (h : ShowsNumber (width + 1) n text) :
    ∃ c rest digit m, text = c :: rest ∧ c.toNat = 48 + digit ∧ digit < 10 ∧
      n = 10 ^ width * digit + m ∧ ShowsNumber width m rest := by
  rcases List.exists_cons_of_length_eq_add_one h.length with ⟨c, rest, rfl⟩
  have hlength : rest.length = width := Nat.succ.inj h.length
  have hzero : '0'.toNat = 48 := rfl
  have hnine : '9'.toNat = 57 := rfl
  have hc := Char.isDigit_iff_toNat.mp (h.digits c List.mem_cons_self)
  have hvalue := h.value
  rw [Nat.ofDigitChars_cons, Nat.ofDigitChars_eq_ofDigitChars_zero, Nat.mul_zero, Nat.zero_add,
    hlength, hzero] at hvalue
  exact ⟨c, rest, c.toNat - 48, _, rfl, by omega, by omega, hvalue.symm, hlength,
    fun d hd => h.digits d (List.mem_cons_of_mem _ hd), rfl⟩

theorem ShowsNumber.lt {width n : Nat} {text : List Char} (h : ShowsNumber width n text) :
    n < 10 ^ width := by
  induction width generalizing n text with
  | zero =>
    rw [← h.value, List.length_eq_zero_iff.mp h.length, Nat.ofDigitChars_nil]
    decide
  | succ width ih =>
    rcases h.exists_cons with ⟨c, rest, digit, m, rfl, _, hdigit, rfl, hrest⟩
    calc 10 ^ width * digit + m
      _ < 10 ^ width * digit + 10 ^ width := Nat.add_lt_add_left (ih hrest) _
      _ = 10 ^ width * (digit + 1) := (Nat.mul_succ ..).symm
      _ ≤ 10 ^ width * 10 := Nat.mul_le_mul_left _ hdigit
      _ = 10 ^ (width + 1) := (pow_succ ..).symm

/-- Texts of one width are in the order of the numbers that they show, whatever follows. -/
theorem ShowsNumber.append_lt_append {width m n : Nat} {a b : List Char}
    (ha : ShowsNumber width m a) (hb : ShowsNumber width n b) (h : m < n) (u v : List Char) :
    a ++ u < b ++ v := by
  induction width generalizing m n a b with
  | zero =>
    have := hb.lt
    omega
  | succ width ih =>
    rcases ha.exists_cons with ⟨c, rest, digit, m, rfl, hc, _, rfl, hrest⟩
    rcases hb.exists_cons with ⟨d, rest', digit', n, rfl, hd, _, rfl, hrest'⟩
    rw [List.cons_append, List.cons_append, List.cons_lt_cons_iff]
    rcases lt_trichotomy digit digit' with hdigit | hdigit | hdigit
    · left
      rw [Char.lt_def, UInt32.lt_iff_toNat_lt]
      change c.toNat < d.toNat
      omega
    · subst hdigit
      exact .inr ⟨Char.toNat_inj.mp (hc.trans hd.symm), ih hrest hrest' (by omega)⟩
    · have hpower := Nat.mul_le_mul_left (10 ^ width) hdigit
      rw [Nat.mul_succ] at hpower
      have := hrest'.lt
      omega

/-- The first number of two texts that differ decides on their order. -/
theorem padded_append_lt {width m n : Nat} (hm : m < 10 ^ width) (hn : n < 10 ^ width)
    {u v : List Char} (h : m < n ∨ m = n ∧ u < v) :
    padded width m ++ u < padded width n ++ v := by
  rcases h with h | ⟨rfl, h⟩
  · have hwidth : 0 < width := by
      by_contra hzero
      rw [Nat.eq_zero_of_not_pos hzero] at hn
      omega
    exact (showsNumber_padded hwidth hm).append_lt_append (showsNumber_padded hwidth hn) h u v
  · exact List.append_left_lt h

/-! ## Texts of times -/

/-- Whether a text names a time: year, month, day, hour, minute and second, all with
fixed widths, and no thousandths. -/
def Names (text : String) (time : Time) : Prop :=
  ∃ year month day hour minute second,
    ShowsNumber 4 time.date.year year ∧ ShowsNumber 2 time.date.month month ∧
    ShowsNumber 2 time.date.day day ∧ ShowsNumber 2 time.hour hour ∧
    ShowsNumber 2 time.minute minute ∧ ShowsNumber 2 time.second second ∧
    text.toList = year ++ '-' :: month ++ '-' :: day ++ 'T' :: hour ++ ':' :: minute ++
      ':' :: second ++ ['.', '0', '0', '0', 'Z']

/-- The time some seconds after the start of 1970. -/
def timeOfSeconds (seconds : Nat) : Time where
  date := dateOfDays (seconds / 86400)
  hour := seconds % 86400 / 3600
  minute := seconds % 86400 / 60 % 60
  second := seconds % 86400 % 60

theorem isValid_timeOfSeconds (seconds : Nat) : (timeOfSeconds seconds).IsValid where
  date := (days_dateOfDays _).1
  hour := by
    simp only [timeOfSeconds]
    omega
  minute := Nat.mod_lt _ (by decide)
  second := Nat.mod_lt _ (by decide)

theorem seconds_timeOfSeconds (seconds : Nat) : (timeOfSeconds seconds).seconds = seconds := by
  simp only [Time.seconds, timeOfSeconds, (days_dateOfDays _).2]
  omega

/-- The numbers of a time fit the widths of a text. -/
structure Time.Fits (time : Time) : Prop where
  year : time.date.year < 10 ^ 4
  month : time.date.month < 10 ^ 2
  day : time.date.day < 10 ^ 2
  hour : time.hour < 10 ^ 2
  minute : time.minute < 10 ^ 2
  second : time.second < 10 ^ 2

theorem monthLength_le (year month : Nat) : monthLength year month ≤ 31 := by
  unfold monthLength
  split_ifs <;> omega

theorem fits_timeOfSeconds (seconds : UInt32) : (timeOfSeconds seconds.toNat).Fits := by
  have hvalid := isValid_timeOfSeconds seconds.toNat
  have hseconds := seconds_timeOfSeconds seconds.toNat
  have hyear := (timeOfSeconds seconds.toNat).date.year_le_days
  have hlength := monthLength_le (timeOfSeconds seconds.toNat).date.year
    (timeOfSeconds seconds.toNat).date.month
  have hlimit := seconds.toNat_lt
  have := hvalid.date.month
  have := hvalid.date.day
  have := hvalid.hour
  have := hvalid.minute
  have := hvalid.second
  unfold Time.seconds at hseconds
  constructor <;> omega

theorem toList_text (seconds : UInt32) :
    (text seconds).toList = writeTime (timeOfSeconds seconds.toNat).date (seconds.toNat % 86400) :=
  String.toList_ofList

theorem names_text (seconds : UInt32) : Names (text seconds) (timeOfSeconds seconds.toNat) := by
  have hfits := fits_timeOfSeconds seconds
  exact ⟨_, _, _, _, _, _, showsNumber_padded (by decide) hfits.year,
    showsNumber_padded (by decide) hfits.month, showsNumber_padded (by decide) hfits.day,
    showsNumber_padded (by decide) hfits.hour, showsNumber_padded (by decide) hfits.minute,
    showsNumber_padded (by decide) hfits.second, toList_text seconds⟩

theorem Names.length {text : String} {time : Time} (h : Names text time) : text.length = 24 := by
  rcases h with ⟨_, _, _, _, _, _, hyear, hmonth, hday, hhour, hminute, hsecond, htext⟩
  rw [← String.length_toList, htext]
  simp [hyear.length, hmonth.length, hday.length, hhour.length, hminute.length, hsecond.length]

/-- Texts are in the order of the times that they name. -/
theorem text_lt_of_precedes {s t : UInt32}
    (h : (timeOfSeconds s.toNat).Precedes (timeOfSeconds t.toNat)) : text s < text t := by
  have hs := fits_timeOfSeconds s
  have ht := fits_timeOfSeconds t
  rw [String.lt_iff_toList_lt, toList_text, toList_text]
  simp only [writeTime, List.append_assoc, List.cons_append]
  -- Number by number: either it decides, or it is the same and the next one is looked at.
  refine padded_append_lt hs.year ht.year (h.imp_right fun ⟨hyear, h⟩ => ⟨hyear, ?_⟩)
  rw [List.cons_lt_cons_self]
  refine padded_append_lt hs.month ht.month (h.imp_right fun ⟨hmonth, h⟩ => ⟨hmonth, ?_⟩)
  rw [List.cons_lt_cons_self]
  refine padded_append_lt hs.day ht.day (h.imp_right fun ⟨hday, h⟩ => ⟨hday, ?_⟩)
  rw [List.cons_lt_cons_self]
  refine padded_append_lt hs.hour ht.hour (h.imp_right fun ⟨hhour, h⟩ => ⟨hhour, ?_⟩)
  rw [List.cons_lt_cons_self]
  refine padded_append_lt hs.minute ht.minute (h.imp_right fun ⟨hminute, h⟩ => ⟨hminute, ?_⟩)
  rw [List.cons_lt_cons_self]
  exact padded_append_lt hs.second ht.second (.inl h)

/-- The text of each number of seconds has 24 characters and names a date and a time
of day that exist and that many seconds after the start of 1970.  More seconds give a
text that is later in the order of texts. -/
theorem text_names_time :
    (∀ seconds : UInt32, (text seconds).length = 24 ∧
      ∃ time, Names (text seconds) time ∧ time.IsValid ∧ time.seconds = seconds.toNat) ∧
    ∀ s t : UInt32, s < t → text s < text t := by
  refine ⟨fun seconds => ⟨(names_text seconds).length, _, names_text seconds,
    isValid_timeOfSeconds _, seconds_timeOfSeconds _⟩, fun s t h => text_lt_of_precedes ?_⟩
  refine Time.precedes_of_seconds_lt (isValid_timeOfSeconds _) (isValid_timeOfSeconds _) ?_
  rw [seconds_timeOfSeconds, seconds_timeOfSeconds]
  exact h

/-- The year 2100 is no leap year. -/
example : text 4107542399 = "2100-02-28T23:59:59.000Z" ∧
    text 4107542400 = "2100-03-01T00:00:00.000Z" := by
  cbv

end CalendarStamp.Instant
