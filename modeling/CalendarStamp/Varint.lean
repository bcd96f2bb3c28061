import CalendarStamp.Error

/-!
# Variable-length numbers and length-prefixed blocks

A number is stored in groups of seven bits, the least significant group first.
The high bit of a byte says that another group follows.  Reading accepts any
number of redundant zero groups and checks the value exactly; writing uses as
few bytes as possible.

Main results:

- Theorem `read_write`: a written number reads back, whatever bytes follow.
- Theorem `read_length`: reading consumes at least one byte.
- Theorem `readBlock_writeBlock`: a written block reads back.
-/

namespace CalendarStamp.Varint

open Outcome

/-- Numbers in varints stay below this bound. -/
def limit : Nat := 1 <<< 64

/-- Whether the byte says that another group follows. -/
def continues (byte : UInt8) : Bool :=
  128 ≤ byte.toNat

/-- The seven bits that a byte contributes. -/
def group (byte : UInt8) : Nat :=
  byte.toNat % 128

/-! ## Reading -/

/-- Read the remaining groups of a number.  `scale` is the weight of the next
group, `value` what the groups before it add up to, and `input` all bytes from
the first group on, for the report of a missing end. -/
def readGroups (input : Bytes) (scale value : Nat) : Bytes → Except Error (Nat × Bytes)
  | [] => .error (.truncatedInput (input.length + 1) input.length)
  | byte :: rest =>
    if limit ≤ group byte * scale then
      .error .varintOverflow
    else if continues byte then
      readGroups input (scale * 128) (value + group byte * scale) rest
    else
      .ok (value + group byte * scale, rest)

/-- Read a number and return it with the bytes after it. -/
def read (bytes : Bytes) : Except Error (Nat × Bytes) :=
  readGroups bytes 1 0 bytes

/-- Read a length and then as many bytes; return them with the bytes after them. -/
def readBlock (bytes : Bytes) : Except Error (Bytes × Bytes) := do
  let (size, rest) ← read bytes
  if size ≤ rest.length then
    return (rest.take size, rest.drop size)
  else
    throw (.truncatedInput size rest.length)

/-! ## Writing -/

/-- The shortest encoding of a number. -/
def write (value : Nat) : Bytes :=
  if value < 128 then
    [UInt8.ofNat value]
  else
    UInt8.ofNat (value % 128 + 128) :: write (value / 128)
termination_by value
decreasing_by omega

/-- A block preceded by its length. -/
def writeBlock (block : Bytes) : Bytes :=
  write block.length ++ block

/-! ## What reading consumes -/

theorem readGroups_length {input : Bytes} {scale value : Nat} {bytes : Bytes} {v : Nat}
    {rest : Bytes} (h : readGroups input scale value bytes = .ok (v, rest)) :
    rest.length < bytes.length := by
  induction bytes generalizing scale value with
  | nil => simp [readGroups] at h
  | cons byte bytes ih =>
    simp only [readGroups] at h
    split at h
    · simp at h
    · split at h
      · have := ih h
        simp only [List.length_cons]
        omega
      · simp only [Except.ok.injEq, Prod.mk.injEq] at h
        simp [h.2]

/-- Reading a number consumes at least one byte. -/
theorem read_length {bytes : Bytes} {v : Nat} {rest : Bytes} (h : read bytes = .ok (v, rest)) :
    rest.length < bytes.length :=
  readGroups_length h

/-- Reading a block consumes at least the length in front of it. -/
theorem readBlock_length {bytes block rest : Bytes} (h : readBlock bytes = .ok (block, rest)) :
    rest.length < bytes.length := by
  obtain ⟨⟨size, tail⟩, hread, h⟩ := bind_eq_ok.mp h
  have hlength := read_length hread
  simp only at h
  split at h
  · simp only [pure_eq, Except.ok.injEq, Prod.mk.injEq] at h
    rw [← h.2, List.length_drop]
    omega
  · simp at h

/-! ## Reading what was written -/

theorem readGroups_write (input : Bytes) (scale value n : Nat) (rest : Bytes)
    (h : n * scale < limit) :
    readGroups input scale value (write n ++ rest) = .ok (value + n * scale, rest) := by
  induction n using Nat.strongRecOn generalizing scale value with
  | ind n ih =>
    rw [write]
    by_cases hn : n < 128
    · have hb : (UInt8.ofNat n).toNat = n := by simp; omega
      have hg : group (UInt8.ofNat n) = n := by simp only [group, hb]; omega
      have hc : continues (UInt8.ofNat n) = false := by simp only [continues, hb]; simp; omega
      simp only [hn, if_true, List.singleton_append, readGroups, hg, hc]
      rw [if_neg (by omega)]
      simp
    · have hb : (UInt8.ofNat (n % 128 + 128)).toNat = n % 128 + 128 := by simp; omega
      have hg : group (UInt8.ofNat (n % 128 + 128)) = n % 128 := by
        simp only [group, hb]; omega
      have hc : continues (UInt8.ofNat (n % 128 + 128)) = true := by
        simp only [continues, hb]; simp
      have hsplit : n * scale = n % 128 * scale + n / 128 * (scale * 128) := by
        conv => lhs; rw [← Nat.mod_add_div n 128]
        rw [Nat.add_mul, Nat.mul_comm 128, Nat.mul_assoc, Nat.mul_comm 128]
      simp only [hn, if_false, List.cons_append, readGroups, hg, hc, if_true]
      rw [if_neg (by omega), ih (n / 128) (by omega) _ _ (by omega), hsplit, Nat.add_assoc]

/-- A written number reads back, and the bytes after it are left. -/
theorem read_write {n : Nat} (h : n < limit) (rest : Bytes) :
    read (write n ++ rest) = .ok (n, rest) := by
  rw [read, readGroups_write _ 1 0 n rest (by omega)]
  simp

/-- A written block reads back, and the bytes after it are left. -/
theorem readBlock_writeBlock {block : Bytes} (h : block.length < limit) (rest : Bytes) :
    readBlock (writeBlock block ++ rest) = .ok (block, rest) := by
  simp [readBlock, writeBlock, List.append_assoc, read_write h]

end CalendarStamp.Varint
