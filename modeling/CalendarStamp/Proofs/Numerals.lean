import CalendarStamp.Varint

/-!
# Numerals

A number has many numerals: any count of zero groups may follow its significant
ones.  Reading takes every numeral of a number below the limit, and writing
gives the only one that no other is shorter than.

Main results:

- Theorem `read_eq_ok_iff`: what is read is a numeral in front of the bytes left.
- Theorem `readBlock_eq_ok_iff`: a block is read behind a numeral of its length.
- Theorem `write_shortens`: a written number is no longer than any of its
  numerals, and as long only as itself.
- Theorem `isShortest_iff`: the shortest numeral of a number is the written one.
-/

namespace CalendarStamp

/-! ## Bytes that take less room -/

/-- Whether bytes are given bytes, or else fewer of them. -/
def Bytes.Shortens (short long : Bytes) : Prop :=
  short = long ∨ short.length < long.length

namespace Bytes.Shortens

theorem refl (bytes : Bytes) : Shortens bytes bytes :=
  .inl rfl

theorem length_le {short long : Bytes} (h : Shortens short long) :
    short.length ≤ long.length := by
  rcases h with rfl | h
  · exact Nat.le_refl _
  · exact Nat.le_of_lt h

/-- As many bytes are the same bytes. -/
theorem eq_of_length_eq {short long : Bytes} (h : Shortens short long)
    (hlength : short.length = long.length) : short = long := by
  rcases h with h | h
  · exact h
  · omega

theorem append {short long short' long' : Bytes} (h : Shortens short long)
    (h' : Shortens short' long') : Shortens (short ++ short') (long ++ long') := by
  rcases h with rfl | h
  · rcases h' with rfl | h'
    · exact refl _
    · right
      simpa using h'
  · right
    have hrest := length_le h'
    simp only [List.length_append]
    omega

theorem cons (byte : UInt8) {short long : Bytes} (h : Shortens short long) :
    Shortens (byte :: short) (byte :: long) :=
  append (refl [byte]) h

/-- Bytes that follow may be left out. -/
theorem append_nil {short long : Bytes} (h : Shortens short long) (surplus : Bytes) :
    Shortens (short ++ []) (long ++ surplus) := by
  apply append h
  cases surplus with
  | nil => exact refl []
  | cons byte surplus => exact .inr (Nat.succ_pos _)

end Bytes.Shortens

namespace Varint

open Outcome

/-! ## Groups -/

/-- Whether bytes are the groups of a number, the least significant first: all
but the last of them say that another one follows. -/
inductive Groups : Bytes → Nat → Prop
  | last {byte : UInt8} (ends : continues byte = false) : Groups [byte] (group byte)
  | more {byte : UInt8} {digits : Bytes} {n : Nat} (follows : continues byte = true)
      (tail : Groups digits n) : Groups (byte :: digits) (group byte + 128 * n)

/-- Whether bytes are a numeral of a number that is in range. -/
structure IsNumeral (digits : Bytes) (n : Nat) : Prop where
  groups : Groups digits n
  lt_limit : n < limit

/-- Whether a numeral is one that no numeral of the same number is shorter than. -/
structure IsShortest (digits : Bytes) (n : Nat) : Prop where
  numeral : IsNumeral digits n
  length_le : ∀ {other : Bytes}, IsNumeral other n → digits.length ≤ other.length

theorem group_lt (byte : UInt8) : group byte < 128 :=
  Nat.mod_lt _ (by decide)

/-- A byte that ends a number is its group. -/
theorem eq_ofNat_of_ends {byte : UInt8} (h : continues byte = false) :
    byte = UInt8.ofNat (group byte) := by
  have hsmall : byte.toNat < 128 := by simpa [continues] using h
  apply UInt8.toNat_inj.mp
  simp only [group, UInt8.toNat_ofNat']
  omega

/-- A byte that goes on is its group with the high bit. -/
theorem eq_ofNat_of_follows {byte : UInt8} (h : continues byte = true) :
    byte = UInt8.ofNat (group byte + 128) := by
  have hlarge : 128 ≤ byte.toNat := by simpa [continues] using h
  have hbound := byte.toNat_lt
  apply UInt8.toNat_inj.mp
  simp only [group, UInt8.toNat_ofNat']
  omega

/-! ## Weights -/

/-- The weight of the group at a position. -/
def weight (position : Nat) : Nat := 1 <<< (7 * position)

@[simp] theorem weight_zero : weight 0 = 1 := rfl

theorem weight_succ (position : Nat) : weight (position + 1) = 128 * weight position := by
  simp only [weight, Nat.one_shiftLeft]
  rw [Nat.mul_add, Nat.pow_add, Nat.mul_comm]

theorem weight_pos (position : Nat) : 0 < weight position := by
  simp only [weight, Nat.one_shiftLeft]
  exact Nat.two_pow_pos _

/-- The limit falls between two groups or divides into those of a position. -/
theorem weight_dvd_limit_or_le (position : Nat) :
    weight position ∣ limit ∨ limit ≤ weight position := by
  simp only [weight, limit, Nat.one_shiftLeft]
  rcases Nat.le_total (7 * position) 64 with h | h
  · exact .inl (Nat.pow_dvd_pow 2 h)
  · exact .inr (Nat.pow_le_pow_right (by decide) h)

/-- The first group of a number and the others contribute to it apart. -/
theorem groups_mul_weight (g n position : Nat) :
    (g + 128 * n) * weight position = g * weight position + n * weight (position + 1) := by
  rw [weight_succ, Nat.add_mul, Nat.mul_comm 128 n, Nat.mul_assoc]

/-- A number stays below the limit when each of its groups does, as no two
groups share a bit. -/
theorem groups_fit_iff {g : Nat} (hg : g < 128) (n position : Nat) :
    (g + 128 * n) * weight position < limit ↔
      g * weight position < limit ∧ n * weight (position + 1) < limit := by
  have hlow : g * weight position < weight (position + 1) := by
    rw [weight_succ]
    exact Nat.mul_lt_mul_of_pos_right hg (weight_pos position)
  rw [groups_mul_weight]
  constructor
  · intro h
    omega
  · rintro ⟨hfirst, hrest⟩
    rcases weight_dvd_limit_or_le (position + 1) with ⟨count, hcount⟩ | hbeyond
    · -- The other groups leave a whole unit of their weight, and the first fits in it.
      have hn : n < count := by
        rw [hcount, Nat.mul_comm n] at hrest
        exact Nat.lt_of_mul_lt_mul_left hrest
      have hunit : (n + 1) * weight (position + 1) ≤ limit := by
        rw [hcount, Nat.mul_comm]
        exact Nat.mul_le_mul_left _ hn
      rw [Nat.succ_mul] at hunit
      omega
    · have hn : n = 0 := by
        rcases Nat.eq_zero_or_pos n with hzero | hpos
        · exact hzero
        · have := Nat.mul_le_mul_right (weight (position + 1)) hpos
          omega
      rw [hn]
      omega

/-! ## Reading -/

/-- Reading from some position on takes the groups of a number whose part of the
whole is in range. -/
theorem readGroups_eq_ok_iff (input : Bytes) (position value : Nat) (bytes : Bytes) (v : Nat)
    (rest : Bytes) :
    readGroups input (weight position) value bytes = .ok (v, rest) ↔
      ∃ digits n, Groups digits n ∧ n * weight position < limit ∧
        v = value + n * weight position ∧ bytes = digits ++ rest := by
  induction bytes generalizing position value with
  | nil =>
    simp only [readGroups, reduceCtorEq, false_iff]
    rintro ⟨digits, n, hgroups, _, _, hbytes⟩
    cases hgroups <;> simp at hbytes
  | cons byte bytes ih =>
    have hgroup := group_lt byte
    have hnext : weight position * 128 = weight (position + 1) := by
      rw [weight_succ, Nat.mul_comm]
    rw [readGroups]
    by_cases hfits : limit ≤ group byte * weight position
    · rw [if_pos hfits]
      simp only [reduceCtorEq, false_iff]
      rintro ⟨digits, n, hgroups, hrange, _, hbytes⟩
      cases hgroups with
      | last ends =>
        cases hbytes
        omega
      | more follows tail =>
        cases hbytes
        have := ((groups_fit_iff hgroup _ position).mp hrange).1
        omega
    · rw [if_neg hfits]
      by_cases hcontinues : continues byte = true
      · rw [if_pos hcontinues, hnext, ih]
        constructor
        · rintro ⟨digits, n, hgroups, hrange, rfl, rfl⟩
          refine ⟨byte :: digits, _, .more hcontinues hgroups, ?_, ?_, rfl⟩
          · exact (groups_fit_iff hgroup n position).mpr ⟨by omega, hrange⟩
          · rw [Nat.add_assoc, groups_mul_weight]
        · rintro ⟨digits, n, hgroups, hrange, rfl, hbytes⟩
          cases hgroups with
          | last ends =>
            cases hbytes
            simp [ends] at hcontinues
          | @more _ digits n follows tail =>
            cases hbytes
            refine ⟨digits, n, tail, ?_, ?_, rfl⟩
            · exact ((groups_fit_iff hgroup n position).mp hrange).2
            · rw [Nat.add_assoc, groups_mul_weight]
      · rw [if_neg hcontinues]
        constructor
        · intro h
          cases h
          exact ⟨[byte], group byte, .last (by simpa using hcontinues), by omega, rfl, rfl⟩
        · rintro ⟨digits, n, hgroups, hrange, rfl, hbytes⟩
          cases hgroups with
          | last ends =>
            cases hbytes
            rfl
          | more follows tail =>
            cases hbytes
            exact absurd follows hcontinues

/-- What is read is a numeral in front of the bytes that are left. -/
theorem read_eq_ok_iff {bytes rest : Bytes} {n : Nat} :
    read bytes = .ok (n, rest) ↔ ∃ digits, IsNumeral digits n ∧ bytes = digits ++ rest := by
  have h := readGroups_eq_ok_iff bytes 0 0 bytes n rest
  simp only [weight_zero, Nat.mul_one, Nat.zero_add] at h
  rw [read, h]
  constructor
  · rintro ⟨digits, _, hgroups, hrange, rfl, hbytes⟩
    exact ⟨digits, ⟨hgroups, hrange⟩, hbytes⟩
  · rintro ⟨digits, hnumeral, hbytes⟩
    exact ⟨digits, n, hnumeral.groups, hnumeral.lt_limit, rfl, hbytes⟩

/-- A block is read behind a numeral of its length, and the bytes after it are left. -/
theorem readBlock_eq_ok_iff {bytes block rest : Bytes} :
    readBlock bytes = .ok (block, rest) ↔
      ∃ digits, IsNumeral digits block.length ∧ bytes = digits ++ block ++ rest := by
  constructor
  · intro h
    rcases bind_eq_ok.mp h with ⟨⟨size, tail⟩, hread, htaken⟩
    rcases read_eq_ok_iff.mp hread with ⟨digits, hnumeral, rfl⟩
    simp only at htaken
    split at htaken
    · rename_i hsize
      cases htaken
      have hlength : (tail.take size).length = size := by
        rw [List.length_take]
        omega
      refine ⟨digits, hlength.symm ▸ hnumeral, ?_⟩
      rw [List.append_assoc, List.take_append_drop]
    · cases htaken
  · rintro ⟨digits, hnumeral, rfl⟩
    have hread : read (digits ++ block ++ rest) = .ok (block.length, block ++ rest) :=
      read_eq_ok_iff.mpr ⟨digits, hnumeral, List.append_assoc ..⟩
    rw [readBlock, hread]
    simp

/-! ## Writing -/

theorem write_of_lt {n : Nat} (h : n < 128) : write n = [UInt8.ofNat n] := by
  rw [write, if_pos h]

theorem write_of_not_lt {n : Nat} (h : ¬n < 128) :
    write n = UInt8.ofNat (n % 128 + 128) :: write (n / 128) := by
  rw [write, if_neg h]

/-- What is written for a number are its groups. -/
theorem groups_write (n : Nat) : Groups (write n) n := by
  induction n using Nat.strongRecOn with
  | ind n ih =>
    by_cases hn : n < 128
    · have hbyte : (UInt8.ofNat n).toNat = n := by
        simp only [UInt8.toNat_ofNat']
        omega
      have hgroup : group (UInt8.ofNat n) = n := by
        rw [group, hbyte]
        omega
      have hends : continues (UInt8.ofNat n) = false := by
        rw [continues, hbyte]
        simpa using hn
      have hgroups := Groups.last hends
      rwa [hgroup, ← write_of_lt hn] at hgroups
    · have hbyte : (UInt8.ofNat (n % 128 + 128)).toNat = n % 128 + 128 := by
        simp only [UInt8.toNat_ofNat']
        omega
      have hgroup : group (UInt8.ofNat (n % 128 + 128)) = n % 128 := by
        rw [group, hbyte]
        omega
      have hfollows : continues (UInt8.ofNat (n % 128 + 128)) = true := by
        rw [continues, hbyte]
        simp
      have hgroups := Groups.more hfollows (ih (n / 128) (by omega))
      rwa [hgroup, Nat.mod_add_div, ← write_of_not_lt hn] at hgroups

theorem isNumeral_write {n : Nat} (h : n < limit) : IsNumeral (write n) n :=
  ⟨groups_write n, h⟩

/-- A number takes at least one group. -/
theorem Groups.length_pos {digits : Bytes} {n : Nat} (h : Groups digits n) :
    0 < digits.length := by
  cases h with
  | last ends => exact Nat.one_pos
  | more follows tail => exact Nat.succ_pos _

/-- A larger number does not take fewer groups. -/
theorem length_write_mono {m n : Nat} (h : m ≤ n) : (write m).length ≤ (write n).length := by
  induction n using Nat.strongRecOn generalizing m with
  | ind n ih =>
    by_cases hm : m < 128
    · rw [write_of_lt hm]
      exact (groups_write n).length_pos
    · have hn : ¬n < 128 := by omega
      have hrest := ih (n / 128) (by omega) (Nat.div_le_div_right h)
      rw [write_of_not_lt hm, write_of_not_lt hn]
      exact Nat.succ_le_succ hrest

/-- A written number is no longer than any groups of the number, and as long
only as itself. -/
theorem write_shortens {digits : Bytes} {n : Nat} (h : Groups digits n) :
    (write n).Shortens digits := by
  induction h with
  | @last byte ends =>
    left
    rw [write_of_lt (group_lt byte), ← eq_ofNat_of_ends ends]
  | @more byte digits n follows tail ih =>
    have hgroup := group_lt byte
    by_cases hzero : n = 0
    · -- Whatever follows the first group is there without need.
      right
      have hdigits := tail.length_pos
      rw [hzero, Nat.mul_zero, Nat.add_zero, write_of_lt hgroup]
      exact Nat.succ_lt_succ hdigits
    · have hlarge : ¬group byte + 128 * n < 128 := by omega
      have hlow : (group byte + 128 * n) % 128 = group byte := by omega
      have hhigh : (group byte + 128 * n) / 128 = n := by omega
      rw [write_of_not_lt hlarge, hlow, hhigh, ← eq_ofNat_of_follows follows]
      exact .cons byte ih

/-- The shortest numeral of a number is the written one. -/
theorem isShortest_iff {digits : Bytes} {n : Nat} :
    IsShortest digits n ↔ n < limit ∧ digits = write n := by
  constructor
  · intro h
    have hlimit := h.numeral.lt_limit
    have hwritten := write_shortens h.numeral.groups
    have hlength := h.length_le (isNumeral_write hlimit)
    have hsame := hwritten.eq_of_length_eq (Nat.le_antisymm hwritten.length_le hlength)
    exact ⟨hlimit, hsame.symm⟩
  · rintro ⟨hlimit, rfl⟩
    exact ⟨isNumeral_write hlimit, fun hother => (write_shortens hother.groups).length_le⟩

end Varint

end CalendarStamp
