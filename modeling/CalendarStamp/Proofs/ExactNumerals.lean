import CalendarStamp.Proofs.WrittenFields

/-!
# What the groups of a number add up to

A number is the sum of its groups, each with the weight of its position, and the
sum decides what reading does: below the limit the number is read, however many
zero groups it has, and from the limit on it is refused, however late the group
that takes it there.  Reading on 64-bit words, with shifts that lose no bit and
with `or` in the place of addition, comes to the same.

Main results:

- Theorem `groups_iff`: bytes are the groups of a number when only the last of
  them ends one, and the number is what they add up to.
- Theorem `readGroups_eq_error_iff`: when reading fails, and how.
- Theorem `readWord_eq_readGroups`: reading on words is reading.
- Theorem `read_exact`: what reading gives for all bytes, and that writing
  spells a number in as few bytes as possible.
-/

namespace CalendarStamp.Varint

open Outcome

/-! ## Sums of groups -/

/-- What the groups of bytes add up to, each with the weight of its position. -/
def total (bytes : Bytes) : Nat :=
  (bytes.mapIdx fun position byte => group byte * weight position).foldr (· + ·) 0

/-- The bytes up to the first one that ends a number, or all when none does. -/
def leading : Bytes → Bytes
  | [] => []
  | byte :: rest => if continues byte then byte :: leading rest else [byte]

@[simp] theorem total_nil : total [] = 0 := rfl

/-- At the next position each group counts 128 times as much. -/
theorem foldr_weight_succ (offset : Nat) (bytes : Bytes) :
    (bytes.mapIdx fun position byte =>
        group byte * weight (position + offset + 1)).foldr (· + ·) 0 =
      128 * (bytes.mapIdx fun position byte =>
        group byte * weight (position + offset)).foldr (· + ·) 0 := by
  induction bytes generalizing offset with
  | nil => rfl
  | cons byte bytes ih =>
    have hrest := ih (offset + 1)
    have hfirst : group byte * weight (offset + 1) = 128 * (group byte * weight offset) := by
      rw [weight_succ, Nat.mul_left_comm]
    simp only [Nat.add_assoc] at hrest ⊢
    simp only [List.mapIdx_cons, List.foldr_cons, Nat.zero_add, Nat.mul_add, hfirst, Nat.add_assoc,
      Nat.add_comm 1, hrest]

@[simp] theorem total_cons (byte : UInt8) (bytes : Bytes) :
    total (byte :: bytes) = group byte + 128 * total bytes := by
  have hrest := foldr_weight_succ 0 bytes
  simp only [Nat.add_zero] at hrest
  simp only [total, List.mapIdx_cons, List.foldr_cons, weight_zero, Nat.mul_one, hrest]

/-- Bytes are the groups of a number when only the last of them ends one, and the
number is what they add up to. -/
theorem groups_iff {digits : Bytes} {n : Nat} :
    Groups digits n ↔
      ∃ front last, (∀ byte ∈ front, continues byte = true) ∧ continues last = false ∧
        digits = front ++ [last] ∧ total digits = n := by
  constructor
  · intro h
    induction h with
    | @last byte ends => exact ⟨[], byte, nofun, ends, rfl, by simp⟩
    | @more byte digits n follows tail ih =>
      rcases ih with ⟨front, last, hfront, hlast, rfl, htotal⟩
      refine ⟨byte :: front, last, ?_, hlast, rfl, ?_⟩
      · exact List.forall_mem_cons.mpr ⟨follows, hfront⟩
      · rw [total_cons, htotal]
  · rintro ⟨front, last, hfront, hlast, rfl, rfl⟩
    induction front with
    | nil =>
      have hgroups := Groups.last hlast
      simpa using hgroups
    | cons byte front ih =>
      rw [List.forall_mem_cons] at hfront
      rw [List.cons_append, total_cons]
      exact .more hfront.1 (ih hfront.2)

/-! ## Numbers that are not read -/

/-- Reading from some position on fails when the groups up to the end of the number
take it beyond the limit, or else when the number has no end. -/
theorem readGroups_eq_error_iff (input : Bytes) (position value : Nat) (bytes : Bytes)
    (e : Error) :
    readGroups input (weight position) value bytes = .error e ↔
      (limit ≤ total (leading bytes) * weight position ∧ e = .varintOverflow) ∨
        ((∀ byte ∈ bytes, continues byte = true) ∧ total bytes * weight position < limit ∧
          e = .truncatedInput (input.length + 1) input.length) := by
  induction bytes generalizing position value with
  | nil =>
    have hlimit : 0 < limit := by decide
    rw [readGroups, Except.error.injEq, @eq_comm _ _ e]
    simp [leading, hlimit, Nat.not_le_of_lt hlimit]
  | cons byte bytes ih =>
    have hgroup := group_lt byte
    have hnext : weight position * 128 = weight (position + 1) := by
      rw [weight_succ, Nat.mul_comm]
    -- The first group and the others stay below the limit together when they do apart.
    have hfits := fun n => groups_fit_iff hgroup n position
    rw [readGroups]
    by_cases hfirst : limit ≤ group byte * weight position
    · have hbeyond : ∀ n, limit ≤ (group byte + 128 * n) * weight position := fun n =>
        Nat.le_of_not_lt fun hlt => absurd ((hfits n).mp hlt).1 (Nat.not_lt_of_le hfirst)
      have hleading : limit ≤ total (leading (byte :: bytes)) * weight position := by
        rw [leading]
        split
        · rw [total_cons]
          exact hbeyond _
        · rw [total_cons]
          exact hbeyond _
      have hall := Nat.not_lt_of_le (hbeyond (total bytes))
      rw [if_pos hfirst, total_cons, Except.error.injEq, @eq_comm _ _ e]
      simp [hleading, hall]
    · have hbelow := Nat.lt_of_not_le hfirst
      rw [if_neg hfirst]
      by_cases hcontinues : continues byte = true
      · have hrest : limit ≤ (group byte + 128 * total (leading bytes)) * weight position ↔
            limit ≤ total (leading bytes) * weight (position + 1) := by
          rw [← Nat.not_lt, hfits, ← Nat.not_lt]
          simp [hbelow]
        rw [if_pos hcontinues, hnext, ih, leading, if_pos hcontinues, total_cons, total_cons,
          hrest, hfits, List.forall_mem_cons]
        simp [hcontinues, hbelow]
      · have hone : total [byte] = group byte := by simp
        rw [if_neg hcontinues, leading, if_neg hcontinues, hone, List.forall_mem_cons]
        simp [hfirst, hcontinues]

/-! ## Reading on words -/

/-- A group moved to a position of a 64-bit word, unless bits of it have no room
there.  A zero has room everywhere. -/
def placed? (group : UInt64) (position : Nat) : Option UInt64 :=
  if group = 0 then
    some 0
  else if 7 * position < 64 then
    let moved := group <<< UInt64.ofNat (7 * position)
    if moved >>> UInt64.ofNat (7 * position) = group then some moved else none
  else
    none

/-- Read the remaining groups of a number into a word.  `position` is that of the
next group, and `input` is all bytes from the first group on. -/
def readWord (input : Bytes) (position : Nat) (value : UInt64) :
    Bytes → Except Error (UInt64 × Bytes)
  | [] => .error (.truncatedInput (input.length + 1) input.length)
  | byte :: rest =>
    match placed? (UInt64.ofNat (group byte)) position with
    | none => .error .varintOverflow
    | some moved =>
      if continues byte then
        readWord input (position + 1) (value ||| moved) rest
      else
        .ok (value ||| moved, rest)

section Shifts

variable {g position : Nat} (hg : g < 128) (hshift : 7 * position < 64)

include hg

theorem toNat_ofNat_group : (UInt64.ofNat g).toNat = g := by
  simp only [UInt64.toNat_ofNat']
  omega

include hshift

/-- A shifted group is its weighted value without the bits beyond the word. -/
theorem toNat_shiftLeft_group :
    (UInt64.ofNat g <<< UInt64.ofNat (7 * position)).toNat = g * weight position % limit := by
  have hamount : (UInt64.ofNat (7 * position)).toNat % 64 = 7 * position := by
    simp only [UInt64.toNat_ofNat']
    omega
  rw [UInt64.toNat_shiftLeft, hamount, toNat_ofNat_group hg, Nat.shiftLeft_eq, weight,
    Nat.one_shiftLeft]
  rfl

/-- Shifting back gives the group again when no bit of it was lost. -/
theorem shiftRight_shiftLeft_group_iff :
    UInt64.ofNat g <<< UInt64.ofNat (7 * position) >>> UInt64.ofNat (7 * position) =
      UInt64.ofNat g ↔ g * weight position < limit := by
  have hpos := weight_pos position
  have hamount : (UInt64.ofNat (7 * position)).toNat % 64 = 7 * position := by
    simp only [UInt64.toNat_ofNat']
    omega
  have hdvd : weight position ∣ limit := by
    simp only [weight, limit, Nat.one_shiftLeft]
    exact Nat.pow_dvd_pow 2 (by omega)
  rcases hdvd with ⟨room, hroom⟩
  have hback : (UInt64.ofNat g <<< UInt64.ofNat (7 * position) >>>
      UInt64.ofNat (7 * position)).toNat = g % room := by
    have hdiv : ∀ n, n >>> (7 * position) = n / weight position := by
      intro n
      rw [Nat.shiftRight_eq_div_pow, weight, Nat.one_shiftLeft]
    rw [UInt64.toNat_shiftRight, hamount, toNat_shiftLeft_group hg hshift, hdiv, hroom,
      Nat.mul_comm g, Nat.mul_mod_mul_left, Nat.mul_div_cancel_left _ hpos]
  have hlimit : 0 < weight position * room := by
    rw [← hroom]
    decide
  rw [← UInt64.toNat_inj, hback, toNat_ofNat_group hg, hroom, Nat.mul_comm g,
    Nat.mul_lt_mul_left hpos]
  constructor
  · intro h
    have hlost := Nat.mod_lt g (Nat.pos_of_mul_pos_left hlimit)
    omega
  · exact Nat.mod_eq_of_lt

end Shifts

/-- A group has room at a position when its weighted value stays below the limit. -/
theorem placed?_eq {g : Nat} (hg : g < 128) (position : Nat) :
    placed? (UInt64.ofNat g) position =
      if limit ≤ g * weight position then none else some (UInt64.ofNat (g * weight position)) := by
  unfold placed?
  by_cases hzero : g = 0
  · have hroom : ¬limit ≤ 0 := by decide
    simp [hzero, hroom]
  · have hne : UInt64.ofNat g ≠ 0 := fun h =>
      hzero (by simpa [toNat_ofNat_group hg] using congrArg UInt64.toNat h)
    rw [if_neg hne]
    by_cases hshift : 7 * position < 64
    · have hback := shiftRight_shiftLeft_group_iff hg hshift
      rw [if_pos hshift]
      by_cases hfits : g * weight position < limit
      · have hmoved : UInt64.ofNat g <<< UInt64.ofNat (7 * position) =
            UInt64.ofNat (g * weight position) := by
          rw [← UInt64.toNat_inj, toNat_shiftLeft_group hg hshift, UInt64.toNat_ofNat']
          rfl
        rw [if_neg (Nat.not_le_of_lt hfits), ← hmoved]
        exact if_pos (hback.mpr hfits)
      · rw [if_pos (Nat.le_of_not_lt hfits)]
        exact if_neg fun h => hfits (hback.mp h)
    · have hfar : limit ≤ weight position := by
        simp only [weight, limit, Nat.one_shiftLeft]
        exact Nat.pow_le_pow_right (by decide) (by omega)
      have hover : limit ≤ g * weight position :=
        Nat.le_trans hfar (Nat.le_mul_of_pos_left _ (Nat.pos_of_ne_zero hzero))
      rw [if_neg hshift, if_pos hover]

/-- A group joins the bits below its position as it would be added to them. -/
theorem or_placed {value : UInt64} {g position : Nat} (hvalue : value.toNat < weight position)
    (hfits : g * weight position < limit) :
    (value ||| UInt64.ofNat (g * weight position)).toNat = value.toNat + g * weight position := by
  have hword : (UInt64.ofNat (g * weight position)).toNat = g * weight position := by
    rw [UInt64.toNat_ofNat']
    exact Nat.mod_eq_of_lt hfits
  have hshift : g * weight position = g <<< (7 * position) := by
    rw [weight, Nat.one_shiftLeft, Nat.shiftLeft_eq]
  rw [weight, Nat.one_shiftLeft] at hvalue
  rw [UInt64.toNat_or, hword, hshift, Nat.or_comm, ← Nat.shiftLeft_add_eq_or_of_lt hvalue,
    Nat.add_comm]

/-- Reading on words is reading. -/
theorem readWord_eq_readGroups (input : Bytes) (position : Nat) {value : UInt64}
    (hvalue : value.toNat < weight position) (bytes : Bytes) :
    (fun (word, rest) => (word.toNat, rest)) <$> readWord input position value bytes =
      readGroups input (weight position) value.toNat bytes := by
  induction bytes generalizing position value with
  | nil => rfl
  | cons byte bytes ih =>
    have hgroup := group_lt byte
    rw [readWord, readGroups, placed?_eq hgroup]
    by_cases hfits : limit ≤ group byte * weight position
    · rw [if_pos hfits, if_pos hfits]
      rfl
    · have hjoined := or_placed hvalue (Nat.lt_of_not_le hfits)
      have hnext : weight position * 128 = weight (position + 1) := by
        rw [weight_succ, Nat.mul_comm]
      rw [if_neg hfits, if_neg hfits]
      by_cases hcontinues : continues byte = true
      · have hbound : (value ||| UInt64.ofNat (group byte * weight position)).toNat <
            weight (position + 1) := by
          have hmul := Nat.mul_le_mul_right (weight position) (Nat.le_sub_one_of_lt hgroup)
          rw [hjoined, ← hnext]
          omega
        rw [if_pos hcontinues, hnext, ← hjoined, ← ih (position + 1) hbound]
        simp only [hcontinues, if_true]
      · simp only [hcontinues, hjoined, Bool.false_eq_true, if_false, map_ok]

/-- Reading on words from the first group on is reading. -/
theorem read_eq_readWord (bytes : Bytes) :
    read bytes = (fun (word, rest) => (word.toNat, rest)) <$> readWord bytes 0 0 bytes := by
  have hzero : (0 : UInt64).toNat < weight 0 := by decide
  exact (readWord_eq_readGroups bytes 0 hzero bytes).symm

/-! ## All bytes, and all numbers -/

/-- Bytes are read as a number exactly when they begin with groups of which only
the last ends a number and which add up to one below the limit; reading fails
because of the sum when the groups add up to the limit or more, and else because
the last group is missing.  What is written for a number takes one to ten bytes,
reads back with any bytes behind it, and no bytes that read as the number are
fewer. -/
theorem read_exact (bytes : Bytes) :
    (∀ n rest, read bytes = .ok (n, rest) ↔
      ∃ front last, (∀ byte ∈ front, continues byte = true) ∧ continues last = false ∧
        bytes = front ++ last :: rest ∧ total (front ++ [last]) = n ∧ n < limit) ∧
    (∀ e, read bytes = .error e ↔
      (limit ≤ total (leading bytes) ∧ e = .varintOverflow) ∨
        ((∀ byte ∈ bytes, continues byte = true) ∧ total bytes < limit ∧
          e = .truncatedInput (bytes.length + 1) bytes.length)) ∧
    ∀ n, n < limit →
      1 ≤ (write n).length ∧ (write n).length ≤ 10 ∧
        (∀ tail, read (write n ++ tail) = .ok (n, tail)) ∧
        ∀ other rest, read other = .ok (n, rest) →
          (write n).length + rest.length ≤ other.length := by
  refine ⟨fun n rest => ?_, fun e => ?_, fun n hn => ⟨?_, length_write_le hn, read_write hn, ?_⟩⟩
  · rw [read_eq_ok_iff]
    constructor
    · rintro ⟨digits, ⟨hgroups, hlimit⟩, rfl⟩
      rcases groups_iff.mp hgroups with ⟨front, last, hfront, hlast, rfl, htotal⟩
      exact ⟨front, last, hfront, hlast, by simp, htotal, hlimit⟩
    · rintro ⟨front, last, hfront, hlast, rfl, htotal, hlimit⟩
      have hgroups := groups_iff.mpr ⟨front, last, hfront, hlast, rfl, htotal⟩
      exact ⟨front ++ [last], ⟨hgroups, hlimit⟩, by simp⟩
  · have hfailure := readGroups_eq_error_iff bytes 0 0 bytes e
    simpa only [read, weight_zero, Nat.mul_one] using hfailure
  · exact (groups_write n).length_pos
  · intro other rest hother
    rcases read_eq_ok_iff.mp hother with ⟨digits, hnumeral, rfl⟩
    have hshorter := (write_shortens hnumeral.groups).length_le
    rw [List.length_append]
    omega

/-- The largest number with a zero group behind it, and two bytes that are left. -/
def paddedLargest : Bytes :=
  [0xff, 0xff, 0xff, 0xff, 0xff, 0xff, 0xff, 0xff, 0xff, 0x81, 0x00, 0x2a, 0xff]

/-- The padded numeral is read, and the written one is two bytes shorter. -/
theorem read_exact_largest :
    limit - 1 < limit ∧ read paddedLargest = .ok (limit - 1, [0x2a, 0xff]) ∧
      (write (limit - 1)).length + 2 ≤ paddedLargest.length ∧
      read (write (limit - 1) ++ [0xff]) = .ok (limit - 1, [0xff]) := by
  have hlimit : limit - 1 < limit := by decide
  have hread : read paddedLargest = .ok (limit - 1, [0x2a, 0xff]) := by cbv
  have hwritten := (read_exact paddedLargest).2.2 (limit - 1) hlimit
  exact ⟨hlimit, hread, hwritten.2.2.2 _ _ hread, hwritten.2.2.1 _⟩

end CalendarStamp.Varint
