import CalendarStamp.Varint

/-!
# Numbered fields

A record is stored as a sequence of numbered fields.  Each starts with a key,
which joins the field's number with the shape of its payload.  Readers skip
fields that they do not know, so every shape can be read without knowing what
the field means, nested groups included.

Main results:

- Theorem `Field.read_length`: reading a field consumes at least its key, so
  reading all fields ends.
- Theorem `skipGroups_length`: skipping groups consumes bytes and adds none.
-/

namespace CalendarStamp.Wire

/-! ## Numbers -/

/-- Numbers in fields take at most this many bytes. -/
def maxVarintLength : Nat := 10

/-- Read a number of at most ten bytes. -/
def readVarint (bytes : Bytes) : Option (Nat × Bytes) :=
  match Varint.read (bytes.take maxVarintLength) with
  | .ok (value, rest) => some (value, rest ++ bytes.drop maxVarintLength)
  | .error _ => none

/-- Take the first `count` bytes, if there are as many. -/
def takeBytes (count : Nat) (bytes : Bytes) : Option (Bytes × Bytes) :=
  if count ≤ bytes.length then some (bytes.take count, bytes.drop count) else none

/-- Read a length and then as many bytes. -/
def readDelimited (bytes : Bytes) : Option (Bytes × Bytes) := do
  let (size, rest) ← readVarint bytes
  takeBytes size rest

/-! ## Keys -/

/-- The shape of a payload. -/
inductive Shape
  | varint
  | fixed64
  | delimited
  | groupStart
  | groupEnd
  | fixed32
deriving DecidableEq

/-- The number that stands for a shape in a key. -/
def Shape.code : Shape → Nat
  | .varint => 0
  | .fixed64 => 1
  | .delimited => 2
  | .groupStart => 3
  | .groupEnd => 4
  | .fixed32 => 5

/-- The shape with a number, if there is one. -/
def Shape.ofCode? : Nat → Option Shape
  | 0 => some .varint
  | 1 => some .fixed64
  | 2 => some .delimited
  | 3 => some .groupStart
  | 4 => some .groupEnd
  | 5 => some .fixed32
  | _ => none

/-- Keys stay below this bound. -/
def keyLimit : Nat := 1 <<< 32

/-- Read the key of a field: its number, which is not zero, and its shape. -/
def readKey (bytes : Bytes) : Option ((Nat × Shape) × Bytes) := do
  let (key, rest) ← readVarint bytes
  let shape ← Shape.ofCode? (key % 8)
  if key < keyLimit ∧ key / 8 ≠ 0 then
    return ((key / 8, shape), rest)
  else
    none

/-- The key of a field. -/
def writeKey (number : Nat) (shape : Shape) : Bytes :=
  Varint.write (number * 8 + shape.code)

/-! ## Groups -/

/-- What remains after a payload of the given shape, other than a group. -/
def skipFlat (shape : Shape) (bytes : Bytes) : Option Bytes :=
  match shape with
  | .varint => Prod.snd <$> readVarint bytes
  | .fixed64 => Prod.snd <$> takeBytes 8 bytes
  | .delimited => Prod.snd <$> readDelimited bytes
  | .fixed32 => Prod.snd <$> takeBytes 4 bytes
  | .groupStart | .groupEnd => none

theorem readVarint_length {bytes rest : Bytes} {value : Nat}
    (h : readVarint bytes = some (value, rest)) : rest.length < bytes.length := by
  unfold readVarint at h
  split at h
  · rename_i v tail hread
    have hlength := Varint.read_length hread
    simp only [Option.some.injEq, Prod.mk.injEq] at h
    rw [← h.2]
    simp only [List.length_take, List.length_append, List.length_drop] at hlength ⊢
    omega
  · simp at h

theorem takeBytes_length {count : Nat} {bytes taken rest : Bytes}
    (h : takeBytes count bytes = some (taken, rest)) : rest.length ≤ bytes.length := by
  unfold takeBytes at h
  split at h
  · simp only [Option.some.injEq, Prod.mk.injEq] at h
    rw [← h.2, List.length_drop]
    omega
  · simp at h

theorem readDelimited_length {bytes block rest : Bytes}
    (h : readDelimited bytes = some (block, rest)) : rest.length < bytes.length := by
  simp only [readDelimited, Option.bind_eq_bind, Option.bind_eq_some_iff] at h
  obtain ⟨⟨size, tail⟩, hread, htake⟩ := h
  exact Nat.lt_of_le_of_lt (takeBytes_length htake) (readVarint_length hread)

theorem readKey_length {bytes rest : Bytes} {key : Nat × Shape}
    (h : readKey bytes = some (key, rest)) : rest.length < bytes.length := by
  simp only [readKey, Option.bind_eq_bind, Option.bind_eq_some_iff] at h
  obtain ⟨⟨value, tail⟩, hread, shape, _, h⟩ := h
  split at h
  · simp only [Option.pure_def, Option.some.injEq, Prod.mk.injEq] at h
    exact h.2 ▸ readVarint_length hread
  · simp at h

theorem skipFlat_length {shape : Shape} {bytes rest : Bytes}
    (h : skipFlat shape bytes = some rest) : rest.length ≤ bytes.length := by
  cases shape <;> simp only [skipFlat, Option.map_eq_map, Option.map_eq_some_iff] at h
  · obtain ⟨⟨_, tail⟩, h, rfl⟩ := h
    exact Nat.le_of_lt (readVarint_length h)
  · obtain ⟨⟨_, tail⟩, h, rfl⟩ := h
    exact takeBytes_length h
  · obtain ⟨⟨_, tail⟩, h, rfl⟩ := h
    exact Nat.le_of_lt (readDelimited_length h)
  · simp at h
  · simp at h
  · obtain ⟨⟨_, tail⟩, h, rfl⟩ := h
    exact takeBytes_length h

/-- Read one key inside open groups and what belongs to it.  `opened` holds the
numbers of the open groups, the innermost first; a field may stand only where
fewer than `nesting` groups are open. -/
def groupStep (nesting : Nat) (opened : List Nat) (bytes : Bytes) :
    Option (List Nat × Bytes) := do
  let ((number, shape), rest) ← readKey bytes
  match shape with
  | .groupEnd => if opened.head? = some number then some (opened.tail, rest) else none
  | .groupStart => if opened.length < nesting then some (number :: opened, rest) else none
  | shape =>
    if opened.length < nesting then (fun rest => (opened, rest)) <$> skipFlat shape rest else none

theorem groupStep_length {nesting : Nat} {opened opened' : List Nat} {bytes rest : Bytes}
    (h : groupStep nesting opened bytes = some (opened', rest)) :
    rest.length < bytes.length := by
  simp only [groupStep, Option.bind_eq_bind, Option.bind_eq_some_iff] at h
  obtain ⟨⟨⟨number, shape⟩, tail⟩, hkey, h⟩ := h
  have hkeyLength := readKey_length hkey
  have hflat : ∀ {shape : Shape},
      (if opened.length < nesting then (fun rest => (opened, rest)) <$> skipFlat shape tail
        else none) = some (opened', rest) → rest.length < bytes.length := by
    intro shape h
    split at h
    · simp only [Option.map_eq_map, Option.map_eq_some_iff, Prod.mk.injEq] at h
      obtain ⟨tail', hskip, _, rfl⟩ := h
      exact Nat.lt_of_le_of_lt (skipFlat_length hskip) hkeyLength
    · simp at h
  have hgroup : ∀ {condition : Prop} [Decidable condition] {opened'' : List Nat},
      (if condition then some (opened'', tail) else none) = some (opened', rest) →
        rest.length < bytes.length := by
    intro condition _ opened'' h
    split at h
    · simp only [Option.some.injEq, Prod.mk.injEq] at h
      exact h.2 ▸ hkeyLength
    · simp at h
  cases shape with
  | varint => exact hflat h
  | fixed64 => exact hflat h
  | delimited => exact hflat h
  | groupStart => exact hgroup h
  | groupEnd => exact hgroup h
  | fixed32 => exact hflat h

/-- What remains after the end of the outermost of the open groups. -/
def skipGroups (nesting : Nat) (opened : List Nat) (bytes : Bytes) : Option Bytes :=
  match opened with
  | [] => some bytes
  | number :: outer =>
    match _h : groupStep nesting (number :: outer) bytes with
    | none => none
    | some (opened', rest) => skipGroups nesting opened' rest
termination_by bytes.length
decreasing_by exact groupStep_length _h

/-- Skipping groups never adds bytes. -/
theorem skipGroups_length {nesting : Nat} {opened : List Nat} {bytes rest : Bytes}
    (h : skipGroups nesting opened bytes = some rest) : rest.length ≤ bytes.length := by
  fun_induction skipGroups nesting opened bytes with
  | case1 bytes => simp_all
  | case2 bytes number outer hstep => simp at h
  | case3 bytes number outer opened' tail hstep ih =>
    have := groupStep_length hstep
    have := ih h
    omega

/-! ## Fields -/

/-- What a field carries.  The content of a group is not kept. -/
inductive Payload
  | varint (value : Nat)
  | fixed64 (bits : UInt64)
  | delimited (content : Bytes)
  | group
  | fixed32 (bits : UInt32)
deriving DecidableEq

/-- A numbered field. -/
structure Field where
  number : Nat
  payload : Payload
deriving DecidableEq

/-- Read the payload of a field of the given number and shape. -/
def readPayload (nesting number : Nat) (shape : Shape) (bytes : Bytes) :
    Option (Payload × Bytes) :=
  match shape with
  | .varint => do
    let (value, rest) ← readVarint bytes
    return (.varint value, rest)
  | .fixed64 => do
    let (digits, rest) ← takeBytes 8 bytes
    return (.fixed64 (UInt64.ofNat (Bytes.ofLittleEndian digits)), rest)
  | .delimited => do
    let (content, rest) ← readDelimited bytes
    return (.delimited content, rest)
  | .groupStart => do
    let rest ← skipGroups nesting [number] bytes
    return (.group, rest)
  | .groupEnd => none
  | .fixed32 => do
    let (digits, rest) ← takeBytes 4 bytes
    return (.fixed32 (UInt32.ofNat (Bytes.ofLittleEndian digits)), rest)

theorem readPayload_length {nesting number : Nat} {shape : Shape} {bytes rest : Bytes}
    {payload : Payload} (h : readPayload nesting number shape bytes = some (payload, rest)) :
    rest.length ≤ bytes.length := by
  cases shape <;>
    simp only [readPayload, Option.bind_eq_bind, Option.bind_eq_some_iff, Option.pure_def,
      Option.some.injEq, Prod.mk.injEq] at h
  · obtain ⟨⟨_, tail⟩, h, _, rfl⟩ := h
    exact Nat.le_of_lt (readVarint_length h)
  · obtain ⟨⟨_, tail⟩, h, _, rfl⟩ := h
    exact takeBytes_length h
  · obtain ⟨⟨_, tail⟩, h, _, rfl⟩ := h
    exact Nat.le_of_lt (readDelimited_length h)
  · obtain ⟨tail, h, _, rfl⟩ := h
    exact skipGroups_length h
  · simp at h
  · obtain ⟨⟨_, tail⟩, h, _, rfl⟩ := h
    exact takeBytes_length h

namespace Field

/-- Read one field. -/
def read (nesting : Nat) (bytes : Bytes) : Option (Field × Bytes) := do
  let ((number, shape), rest) ← readKey bytes
  let (payload, rest) ← readPayload nesting number shape rest
  return (⟨number, payload⟩, rest)

/-- Reading a field consumes at least its key. -/
theorem read_length {nesting : Nat} {bytes rest : Bytes} {field : Field}
    (h : read nesting bytes = some (field, rest)) : rest.length < bytes.length := by
  simp only [read, Option.bind_eq_bind, Option.bind_eq_some_iff, Option.pure_def,
    Option.some.injEq, Prod.mk.injEq] at h
  obtain ⟨⟨⟨number, shape⟩, tail⟩, hkey, ⟨payload, tail'⟩, hpayload, _, rfl⟩ := h
  exact Nat.lt_of_le_of_lt (readPayload_length hpayload) (readKey_length hkey)

/-- Read fields until the bytes are used up.  Groups may nest to a depth of
`nesting`. -/
def readAll (nesting : Nat) (bytes : Bytes) : Option (List Field) :=
  match bytes with
  | [] => some []
  | byte :: rest =>
    match _h : read nesting (byte :: rest) with
    | none => none
    | some (field, rest') => (field :: ·) <$> readAll nesting rest'
termination_by bytes.length
decreasing_by exact read_length _h

/-- The bytes of a field.  A group is written without content. -/
def write (field : Field) : Bytes :=
  match field.payload with
  | .varint value => writeKey field.number .varint ++ Varint.write value
  | .fixed64 bits => writeKey field.number .fixed64 ++ Bytes.littleEndian 8 bits.toNat
  | .delimited content => writeKey field.number .delimited ++ Varint.writeBlock content
  | .group => writeKey field.number .groupStart ++ writeKey field.number .groupEnd
  | .fixed32 bits => writeKey field.number .fixed32 ++ Bytes.littleEndian 4 bits.toNat

/-- The bytes of a sequence of fields. -/
def writeAll (fields : List Field) : Bytes :=
  fields.flatMap write

end Field

end CalendarStamp.Wire
