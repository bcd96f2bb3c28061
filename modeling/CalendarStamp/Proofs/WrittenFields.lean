import CalendarStamp.Proofs.Numerals
import CalendarStamp.Wire.Message

/-!
# Written fields

The fields of a message are written one after the other with nothing between
them.  Still no boundary is lost, since the bytes of a field tell where they
end: bytes cannot begin with two different fields, and a reader takes the same
fields apart again.

Main results:

- Theorem `Wire.readVarint_eq_some_iff`: what a reader of numerals takes off.
- Theorem `Field.write_append_inj`: bytes begin with one field at most.
- Theorem `Field.writeAll_injective`: different fields are written differently.
- Theorem `Field.readAll_writeAll`: plain fields that were written are read back.
-/

namespace CalendarStamp

/-! ## Numbers that tell where they end -/

namespace Varint

/-- Bytes begin with the groups of one number at most. -/
theorem Groups.append_inj {digits digits' rest rest' : Bytes} {m n : Nat} (h : Groups digits m)
    (h' : Groups digits' n) (heq : digits ++ rest = digits' ++ rest') : m = n ∧ rest = rest' := by
  induction h generalizing digits' n with
  | @last byte ends =>
    cases h' with
    | last ends' =>
      cases heq
      exact ⟨rfl, rfl⟩
    | more follows' tail' =>
      cases heq
      rw [ends] at follows'
      cases follows'
  | @more byte digits m follows tail ih =>
    cases h' with
    | last ends' =>
      cases heq
      rw [ends'] at follows
      cases follows
    | more follows' tail' =>
      injection heq with hbyte heq
      rcases ih tail' heq with ⟨rfl, hrest⟩
      rw [hbyte]
      exact ⟨rfl, hrest⟩

/-- Bytes begin with one written number at most. -/
theorem write_append_inj {m n : Nat} {rest rest' : Bytes}
    (h : write m ++ rest = write n ++ rest') : m = n ∧ rest = rest' :=
  (groups_write m).append_inj (groups_write n) h

/-- Bytes begin with one written block at most. -/
theorem writeBlock_append_inj {block block' rest rest' : Bytes}
    (h : writeBlock block ++ rest = writeBlock block' ++ rest') :
    block = block' ∧ rest = rest' := by
  simp only [writeBlock, List.append_assoc] at h
  rcases write_append_inj h with ⟨hlength, htail⟩
  exact List.append_inj htail hlength

/-- A number in range takes ten bytes at most. -/
theorem length_write_le {n : Nat} (h : n < limit) : (write n).length ≤ 10 := by
  have hlargest : (write (limit - 1)).length = 10 := by decide +kernel
  rw [← hlargest]
  exact length_write_mono (by omega)

end Varint

/-- Bytes begin with one number of a given width at most. -/
theorem Bytes.littleEndian_append_inj {width m n : Nat} {rest rest' : Bytes}
    (h : littleEndian width m ++ rest = littleEndian width n ++ rest')
    (hm : m < 1 <<< (8 * width)) (hn : n < 1 <<< (8 * width)) : m = n ∧ rest = rest' := by
  rcases List.append_inj h (by simp) with ⟨hdigits, hrest⟩
  have hvalue := congrArg ofLittleEndian hdigits
  rw [ofLittleEndian_littleEndian, ofLittleEndian_littleEndian, Nat.mod_eq_of_lt hm,
    Nat.mod_eq_of_lt hn] at hvalue
  exact ⟨hvalue, hrest⟩

namespace Wire

/-! ## Keys -/

theorem Shape.code_lt (shape : Shape) : shape.code < 8 := by
  cases shape <;> decide

@[simp] theorem Shape.ofCode?_code (shape : Shape) : ofCode? shape.code = some shape := by
  cases shape <;> rfl

/-- Bytes begin with one key at most. -/
theorem writeKey_append_inj {number number' : Nat} {shape shape' : Shape} {rest rest' : Bytes}
    (h : writeKey number shape ++ rest = writeKey number' shape' ++ rest') :
    number = number' ∧ shape = shape' ∧ rest = rest' := by
  rcases Varint.write_append_inj h with ⟨hkey, hrest⟩
  have hsmall := shape.code_lt
  have hsmall' := shape'.code_lt
  have hcode : shape.code = shape'.code := by omega
  have hshape : some shape = some shape' := by
    rw [← Shape.ofCode?_code, hcode, Shape.ofCode?_code]
  exact ⟨by omega, Option.some.inj hshape, hrest⟩

/-- Whether a number is one that fields can have: not zero, and with its keys in
range. -/
def IsFieldNumber (number : Nat) : Prop :=
  0 < number ∧ number * 8 + 8 ≤ keyLimit

instance (number : Nat) : Decidable (IsFieldNumber number) :=
  inferInstanceAs (Decidable (_ ∧ _))

/-! ## Fields that tell where they end -/

/-- The shape of what a field carries. -/
def Payload.shape : Payload → Shape
  | varint _ => .varint
  | fixed64 _ => .fixed64
  | delimited _ => .delimited
  | group => .groupStart
  | fixed32 _ => .fixed32

/-- The bytes of what a field with a number carries, without the key in front. -/
def Payload.write (number : Nat) : Payload → Bytes
  | varint value => Varint.write value
  | fixed64 bits => Bytes.littleEndian 8 bits.toNat
  | delimited content => Varint.writeBlock content
  | group => writeKey number .groupEnd
  | fixed32 bits => Bytes.littleEndian 4 bits.toNat

/-- Bytes begin with one payload of a shape at most. -/
theorem Payload.write_append_inj {number : Nat} {payload payload' : Payload} {rest rest' : Bytes}
    (hshape : payload.shape = payload'.shape)
    (h : payload.write number ++ rest = payload'.write number ++ rest') :
    payload = payload' ∧ rest = rest' := by
  cases payload with
  | varint value =>
    cases payload' with
    | varint value' =>
      rcases Varint.write_append_inj h with ⟨rfl, hrest⟩
      exact ⟨rfl, hrest⟩
    | _ => cases hshape
  | fixed64 bits =>
    cases payload' with
    | fixed64 bits' =>
      rcases Bytes.littleEndian_append_inj h bits.toNat_lt bits'.toNat_lt with ⟨hbits, hrest⟩
      exact ⟨congrArg _ (UInt64.toNat_inj.mp hbits), hrest⟩
    | _ => cases hshape
  | delimited content =>
    cases payload' with
    | delimited content' =>
      rcases Varint.writeBlock_append_inj h with ⟨rfl, hrest⟩
      exact ⟨rfl, hrest⟩
    | _ => cases hshape
  | group =>
    cases payload' with
    | group => exact ⟨rfl, List.append_cancel_left h⟩
    | _ => cases hshape
  | fixed32 bits =>
    cases payload' with
    | fixed32 bits' =>
      rcases Bytes.littleEndian_append_inj h bits.toNat_lt bits'.toNat_lt with ⟨hbits, hrest⟩
      exact ⟨congrArg _ (UInt32.toNat_inj.mp hbits), hrest⟩
    | _ => cases hshape

namespace Field

/-- A field is written as its key and then what it carries. -/
theorem write_eq (field : Field) :
    field.write = writeKey field.number field.payload.shape ++
      field.payload.write field.number := by
  rcases field with ⟨number, payload⟩
  cases payload <;> rfl

/-- A field takes at least one byte. -/
theorem write_ne_nil (field : Field) : field.write ≠ [] := by
  intro hnil
  have hlength := (Varint.groups_write (field.number * 8 + field.payload.shape.code)).length_pos
  rw [write_eq, List.append_eq_nil_iff] at hnil
  rw [writeKey] at hnil
  simp [hnil.1] at hlength

/-- Bytes begin with one field at most. -/
theorem write_append_inj {field field' : Field} {rest rest' : Bytes}
    (h : field.write ++ rest = field'.write ++ rest') : field = field' ∧ rest = rest' := by
  rcases field with ⟨number, payload⟩
  rcases field' with ⟨number', payload'⟩
  simp only [write_eq, List.append_assoc] at h
  rcases writeKey_append_inj h with ⟨rfl, hshape, htail⟩
  rcases Payload.write_append_inj hshape htail with ⟨rfl, hrest⟩
  exact ⟨rfl, hrest⟩

@[simp] theorem writeAll_nil : writeAll [] = [] := rfl

@[simp] theorem writeAll_cons (field : Field) (fields : List Field) :
    writeAll (field :: fields) = field.write ++ writeAll fields := rfl

@[simp] theorem writeAll_append (fields more : List Field) :
    writeAll (fields ++ more) = writeAll fields ++ writeAll more :=
  List.flatMap_append

/-- Different fields are written differently. -/
theorem writeAll_injective {fields fields' : List Field} (h : writeAll fields = writeAll fields') :
    fields = fields' := by
  induction fields generalizing fields' with
  | nil =>
    cases fields' with
    | nil => rfl
    | cons field' fields' =>
      have hnil := List.append_eq_nil_iff.mp h.symm
      exact absurd hnil.1 field'.write_ne_nil
  | cons field fields ih =>
    cases fields' with
    | nil =>
      have hnil := List.append_eq_nil_iff.mp h
      exact absurd hnil.1 field.write_ne_nil
    | cons field' fields' =>
      rcases write_append_inj h with ⟨rfl, hrest⟩
      rw [ih hrest]

end Field

/-! ## Reading what was written -/

/-- A number is read as a numeral of ten bytes at most. -/
theorem readVarint_eq_some_iff {bytes rest : Bytes} {n : Nat} :
    readVarint bytes = some (n, rest) ↔
      ∃ digits, Varint.IsNumeral digits n ∧ digits.length ≤ maxVarintLength ∧
        bytes = digits ++ rest := by
  constructor
  · intro h
    unfold readVarint at h
    split at h
    · rename_i value tail hread
      cases h
      rcases Varint.read_eq_ok_iff.mp hread with ⟨digits, hnumeral, hfront⟩
      refine ⟨digits, hnumeral, ?_, ?_⟩
      · have hlength := congrArg List.length hfront
        rw [List.length_take, List.length_append] at hlength
        omega
      · rw [← List.append_assoc, ← hfront, List.take_append_drop]
    · cases h
  · rintro ⟨digits, hnumeral, hlength, rfl⟩
    have hread : Varint.read ((digits ++ rest).take maxVarintLength) =
        .ok (n, rest.take (maxVarintLength - digits.length)) := by
      refine Varint.read_eq_ok_iff.mpr ⟨digits, hnumeral, ?_⟩
      rw [List.take_append, List.take_of_length_le hlength]
    have hdrop : (digits ++ rest).drop maxVarintLength =
        rest.drop (maxVarintLength - digits.length) := by
      rw [List.drop_append, List.drop_of_length_le hlength, List.nil_append]
    simp only [readVarint, hread, hdrop, List.take_append_drop]

/-- A written number reads back, and the bytes after it are left. -/
theorem readVarint_write {n : Nat} (h : n < Varint.limit) (rest : Bytes) :
    readVarint (Varint.write n ++ rest) = some (n, rest) :=
  readVarint_eq_some_iff.mpr
    ⟨Varint.write n, Varint.isNumeral_write h, Varint.length_write_le h, rfl⟩

/-- A written block reads back, and the bytes after it are left. -/
theorem readDelimited_writeBlock {content : Bytes} (h : content.length < Varint.limit)
    (rest : Bytes) : readDelimited (Varint.writeBlock content ++ rest) = some (content, rest) := by
  simp [readDelimited, Varint.writeBlock, readVarint_write h, takeBytes]

/-- A written key reads back, and the bytes after it are left. -/
theorem readKey_writeKey {number : Nat} (h : IsFieldNumber number) (shape : Shape)
    (rest : Bytes) : readKey (writeKey number shape ++ rest) = some ((number, shape), rest) := by
  rcases h with ⟨hpos, hlimit⟩
  have hsmall := shape.code_lt
  have hkey : number * 8 + shape.code < keyLimit := by omega
  have hrange : number * 8 + shape.code < Varint.limit :=
    Nat.lt_trans hkey (by decide)
  have hcode : (number * 8 + shape.code) % 8 = shape.code := by omega
  have hnumber : (number * 8 + shape.code) / 8 = number := by omega
  have hvalid : number * 8 + shape.code < keyLimit ∧ number ≠ 0 := ⟨hkey, by omega⟩
  simp only [readKey, writeKey, readVarint_write hrange, hcode, hnumber, Shape.ofCode?_code,
    Option.bind_eq_bind, Option.bind_some]
  rw [if_pos hvalid]
  rfl

namespace Field

/-- Whether a field is one that messages are made of: one that carries bytes or
a number that is in range. -/
structure IsPlain (field : Field) : Prop where
  number : IsFieldNumber field.number
  varint_lt : ∀ {value : Nat}, field.payload = .varint value → value < Varint.limit
  no_group : field.payload ≠ .group

end Field

/-! ## Fields of messages -/

section Members

variable {number : Nat} {field : Field}

theorem eq_of_mem_varintField {value : Nat} (h : field ∈ varintField number value) :
    field = ⟨number, .varint value⟩ := by
  rw [varintField, List.mem_ite_nil_left, List.mem_singleton] at h
  exact h.2

theorem eq_of_mem_bytesField {content : Bytes} (h : field ∈ bytesField number content) :
    field = ⟨number, .delimited content⟩ := by
  rw [bytesField, List.mem_ite_nil_left, List.mem_singleton] at h
  exact h.2

theorem eq_of_mem_doubleField {value : Binary64} (h : field ∈ doubleField number value) :
    field = ⟨number, .fixed64 value.bits⟩ := by
  rw [doubleField, List.mem_ite_nil_left, List.mem_singleton] at h
  exact h.2

theorem eq_of_mem_singleField {value : Binary32} (h : field ∈ singleField number value) :
    field = ⟨number, .fixed32 value.bits⟩ := by
  rw [singleField, List.mem_ite_nil_left, List.mem_singleton] at h
  exact h.2

end Members

section Plain

variable {number : Nat} (h : IsFieldNumber number)

include h

theorem isPlain_messageField (content : Bytes) : (messageField number content).IsPlain :=
  ⟨h, nofun, nofun⟩

theorem isPlain_varintField {value : Nat} (hrange : value < Varint.limit) :
    ∀ field ∈ varintField number value, field.IsPlain := by
  intro field hmem
  rw [eq_of_mem_varintField hmem]
  refine ⟨h, fun hvalue => ?_, nofun⟩
  cases hvalue
  exact hrange

theorem isPlain_unsignedField (value : UInt32) :
    ∀ field ∈ varintField number value.toNat, field.IsPlain :=
  isPlain_varintField h (Nat.lt_trans value.toNat_lt (by decide))

theorem isPlain_signedField (value : Int32) :
    ∀ field ∈ signedField number value, field.IsPlain := by
  refine isPlain_varintField h ?_
  have hlimit : Varint.limit = UInt64.size := rfl
  have hpos : (0 : Int) < UInt64.size := by decide
  have hsmall := Int.emod_lt_of_pos value.toInt hpos
  rw [signedValue]
  omega

theorem isPlain_bytesField (content : Bytes) :
    ∀ field ∈ bytesField number content, field.IsPlain := by
  intro field hmem
  rw [eq_of_mem_bytesField hmem]
  exact isPlain_messageField h content

theorem isPlain_textField (text : String) : ∀ field ∈ textField number text, field.IsPlain :=
  isPlain_bytesField h _

theorem isPlain_doubleField (value : Binary64) :
    ∀ field ∈ doubleField number value, field.IsPlain := by
  intro field hmem
  rw [eq_of_mem_doubleField hmem]
  exact ⟨h, nofun, nofun⟩

theorem isPlain_singleField (value : Binary32) :
    ∀ field ∈ singleField number value, field.IsPlain := by
  intro field hmem
  rw [eq_of_mem_singleField hmem]
  exact ⟨h, nofun, nofun⟩

end Plain

namespace Field

/-- A field that carries bytes takes more room than they do. -/
theorem length_content_le {number : Nat} {content : Bytes} {fields : List Field}
    (h : ⟨number, .delimited content⟩ ∈ fields) : content.length ≤ (writeAll fields).length := by
  have hfield : content.length ≤ (write ⟨number, .delimited content⟩).length := by
    simp only [write, Varint.writeBlock, List.length_append]
    omega
  rcases List.append_of_mem h with ⟨before, after, rfl⟩
  simp only [writeAll_append, writeAll_cons, List.length_append]
  omega

/-- A plain field that was written is read back, and the bytes after it are left. -/
theorem read_write {field : Field} (plain : field.IsPlain)
    (fits : field.write.length < Varint.limit) (nesting : Nat) (rest : Bytes) :
    read nesting (field.write ++ rest) = some (field, rest) := by
  have hkey := readKey_writeKey plain.number field.payload.shape
    (field.payload.write field.number ++ rest)
  have hpayload : readPayload nesting field.number field.payload.shape
      (field.payload.write field.number ++ rest) = some (field.payload, rest) := by
    rcases field with ⟨number, payload⟩
    cases payload with
    | varint value =>
      simp [readPayload, Payload.shape, Payload.write, readVarint_write (plain.varint_lt rfl)]
    | fixed64 bits =>
      have hbits : Bytes.ofLittleEndian (Bytes.littleEndian 8 bits.toNat) = bits.toNat := by
        rw [Bytes.ofLittleEndian_littleEndian]
        exact Nat.mod_eq_of_lt bits.toNat_lt
      simp [readPayload, Payload.shape, Payload.write, takeBytes, hbits]
    | delimited content =>
      have hcontent : content.length < Varint.limit := by
        have := length_content_le (List.mem_singleton_self (⟨number, .delimited content⟩ : Field))
        simp only [writeAll_cons, writeAll_nil, List.append_nil] at this
        omega
      simp [readPayload, Payload.shape, Payload.write, readDelimited_writeBlock hcontent]
    | group => exact absurd rfl plain.no_group
    | fixed32 bits =>
      have hbits : Bytes.ofLittleEndian (Bytes.littleEndian 4 bits.toNat) = bits.toNat := by
        rw [Bytes.ofLittleEndian_littleEndian]
        exact Nat.mod_eq_of_lt bits.toNat_lt
      simp [readPayload, Payload.shape, Payload.write, takeBytes, hbits]
  simp [read, write_eq, List.append_assoc, hkey, hpayload]

/-- Fields are read one after the other. -/
theorem readAll_of_read {nesting : Nat} {bytes rest : Bytes} {field : Field}
    (h : read nesting bytes = some (field, rest)) :
    readAll nesting bytes = (field :: ·) <$> readAll nesting rest := by
  cases bytes with
  | nil =>
    have := read_length h
    simp at this
  | cons byte bytes =>
    rw [readAll]
    split <;> simp_all

/-- Plain fields that were written are read back. -/
theorem readAll_writeAll {fields : List Field} (plain : ∀ field ∈ fields, field.IsPlain)
    (fits : (writeAll fields).length < Varint.limit) (nesting : Nat) :
    readAll nesting (writeAll fields) = some fields := by
  induction fields with
  | nil => simp [readAll]
  | cons field fields ih =>
    rcases List.forall_mem_cons.mp plain with ⟨hfield, hrest⟩
    rw [writeAll_cons, List.length_append] at fits
    rw [writeAll_cons, readAll_of_read (read_write hfield (by omega) nesting _),
      ih hrest (by omega)]
    rfl

end Field

/-- Reading a message of plain fields that were written merges them in order. -/
theorem decode_writeAll {α : Type} (merge : α → Field → Option α) (nesting : Nat) (start : α)
    {fields : List Field} (plain : ∀ field ∈ fields, field.IsPlain)
    (fits : (Field.writeAll fields).length < Varint.limit) :
    decode merge nesting start (Field.writeAll fields) = fields.foldlM merge start := by
  simp [decode, Field.readAll_writeAll plain fits]

end Wire

end CalendarStamp
