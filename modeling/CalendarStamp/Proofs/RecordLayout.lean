import CalendarStamp.Proofs.StoredRecords

/-!
# The layout of stored records

The stored form of a record follows from a table of its attributes: a number, a
type and a value for each.  The type alone says when a value is left out and how
it is spelled, so the tables are all there is to know about a format that other
programs read.

Main results:

- Theorems `Operation.encode_eq_layout`, `Attestation.encode_eq_layout`,
  `Identity.encode_eq_layout` and `Location.encode_eq_layout`: the records inside
  a timestamp are laid out by their tables.
- Theorem `Record.encode_eq_layout`: so is the record of a timestamp.
-/

namespace CalendarStamp

open Wire

/-! ## Attributes -/

/-- The value of an attribute, by the type that it has in the format. -/
inductive TypedValue
  | bytes (content : Bytes)
  | text (content : String)
  | unsigned (value : UInt32)
  | enumeration (value : Int32)
  | double (value : Binary64)
  | single (value : Binary32)
  | message (content : Bytes)

namespace TypedValue

/-- Whether a value is the one that its type starts from.  A message has none:
one that is there is never left out. -/
def isDefault : TypedValue → Bool
  | bytes content => content.isEmpty
  | text content => content = ""
  | unsigned value => value = 0
  | enumeration value => value = 0
  | double value => value.bits = 0 || value.bits = 0x8000000000000000
  | single value => value.bits = 0 || value.bits = 0x80000000
  | message _ => false

/-- The three bits in a key that tell how long what follows is: a number in
groups, eight bytes, a block, or four bytes. -/
def wireType : TypedValue → Nat
  | unsigned _ | enumeration _ => 0
  | double _ => 1
  | bytes _ | text _ | message _ => 2
  | single _ => 5

/-- The spelling of a value.  An enumeration is a signed number of 64 bits, so a
negative one counts down from 2 to the 64th. -/
def spelling : TypedValue → Bytes
  | bytes content => Varint.write content.length ++ content
  | text content => Varint.write (Utf8.encode content).length ++ Utf8.encode content
  | unsigned value => Varint.write value.toNat
  | enumeration value =>
    if 0 ≤ value.toInt then
      Varint.write value.toInt.toNat
    else
      Varint.write (UInt64.size - (-value.toInt).toNat)
  | double value => Bytes.littleEndian 8 value.bits.toNat
  | single value => Bytes.littleEndian 4 value.bits.toNat
  | message content => Varint.write content.length ++ content

/-- What is stored of an attribute: nothing, or its key and its spelling. -/
def lay (number : Nat) (value : TypedValue) : Bytes :=
  if value.isDefault then
    []
  else
    Varint.write (number * 8 + value.wireType) ++ value.spelling

end TypedValue

/-- What is stored of a table of attributes. -/
def layout (attributes : List (Nat × TypedValue)) : Bytes :=
  attributes.flatMap fun (number, value) => value.lay number

@[simp] theorem layout_nil : layout [] = [] := rfl

@[simp] theorem layout_cons (number : Nat) (value : TypedValue)
    (attributes : List (Nat × TypedValue)) :
    layout ((number, value) :: attributes) = value.lay number ++ layout attributes := rfl

@[simp] theorem layout_append (attributes more : List (Nat × TypedValue)) :
    layout (attributes ++ more) = layout attributes ++ layout more :=
  List.flatMap_append

/-! ## Fields by the type of their attribute -/

section Fields

variable (number : Nat)

/-- A field that is left out for the default value and else carries its spelling
is laid out as its attribute. -/
theorem writeAll_optional {absent : Prop} [Decidable absent] {payload : Payload}
    {value : TypedValue} (default : absent ↔ value.isDefault = true)
    (shape : payload.shape.code = value.wireType)
    (spelling : payload.write number = value.spelling) :
    Field.writeAll (if absent then [] else [⟨number, payload⟩]) = value.lay number := by
  by_cases habsent : absent
  · rw [if_pos habsent, TypedValue.lay, if_pos (default.mp habsent)]
    rfl
  · rw [if_neg habsent, TypedValue.lay, if_neg (mt default.mpr habsent), Field.writeAll_cons,
      Field.write_eq, writeKey, shape, spelling, Field.writeAll_nil, List.append_nil]

theorem writeAll_bytesField (content : Bytes) :
    Field.writeAll (bytesField number content) = (TypedValue.bytes content).lay number := by
  refine writeAll_optional number ?_ rfl rfl
  rw [TypedValue.isDefault, List.isEmpty_iff]

theorem writeAll_textField (text : String) :
    Field.writeAll (textField number text) = (TypedValue.text text).lay number := by
  refine writeAll_optional number ?_ rfl rfl
  rw [TypedValue.isDefault, decide_eq_true_iff]
  exact ⟨fun hnil => Utf8.encode_injective hnil, congrArg Utf8.encode⟩

theorem writeAll_unsignedField (value : UInt32) :
    Field.writeAll (varintField number value.toNat) = (TypedValue.unsigned value).lay number := by
  refine writeAll_optional number ?_ rfl rfl
  rw [TypedValue.isDefault, decide_eq_true_iff]
  exact UInt32.toNat_inj (b := 0)

theorem writeAll_signedField (value : Int32) :
    Field.writeAll (signedField number value) = (TypedValue.enumeration value).lay number := by
  refine writeAll_optional number ?_ rfl ?_
  · rw [TypedValue.isDefault, decide_eq_true_iff]
    constructor
    · intro hzero
      rw [← signed32_signedValue value, hzero]
      rfl
    · intro hzero
      rw [hzero]
      rfl
  · have hlow := value.le_toInt
    have hhigh := value.toInt_lt
    simp only [Payload.write, TypedValue.spelling, signedValue, UInt64.size]
    split
    · congr 1
      omega
    · congr 1
      omega

theorem writeAll_doubleField (value : Binary64) :
    Field.writeAll (doubleField number value) = (TypedValue.double value).lay number := by
  refine writeAll_optional number ?_ rfl rfl
  rw [Binary64.isZero_iff]
  rcases value with ⟨bits⟩
  simp [TypedValue.isDefault, Binary64.zero, Binary64.negativeZero]

theorem writeAll_singleField (value : Binary32) :
    Field.writeAll (singleField number value) = (TypedValue.single value).lay number := by
  refine writeAll_optional number ?_ rfl rfl
  rw [Binary32.isZero_iff]
  rcases value with ⟨bits⟩
  simp [TypedValue.isDefault, Binary32.zero, Binary32.negativeZero]

theorem writeAll_messageFields {α : Type} (encode : α → Bytes) (items : List α) :
    Field.writeAll (items.map fun item => messageField number (encode item)) =
      layout (items.map fun item => (number, .message (encode item))) := by
  induction items with
  | nil => rfl
  | cons item items ih =>
    rw [List.map_cons, List.map_cons, Field.writeAll_cons, layout_cons, ih]
    rfl

end Fields

/-! ## Tables -/

/-- The attributes of an operation. -/
def Operation.attributes (operation : Operation) : List (Nat × TypedValue) :=
  [(1, .enumeration operation.kind), (2, .bytes operation.value),
    (3, .enumeration operation.status), (4, .text operation.calendarUrl),
    (5, .unsigned operation.blockHeight)]

/-- An operation is laid out by the table of its attributes. -/
theorem Operation.encode_eq_layout (operation : Operation) :
    operation.encode = layout operation.attributes := by
  simp [encode, fields, attributes, writeAll_signedField, writeAll_bytesField, writeAll_textField,
    writeAll_unsignedField]

/-- The attributes of an attestation. -/
def Attestation.attributes (attestation : Attestation) : List (Nat × TypedValue) :=
  [(1, .text attestation.calendarUrl), (2, .unsigned attestation.submitted)] ++
    (attestation.operations.map fun operation => (3, .message (layout operation.attributes))) ++
    [(4, .enumeration attestation.status), (5, .unsigned attestation.blockHeight),
      (6, .bytes attestation.blockMerkleRoot), (7, .bytes attestation.timestampMerkleRoot),
      (8, .bytes attestation.transactionId)]

/-- An attestation is laid out by the table of its attributes. -/
theorem Attestation.encode_eq_layout (attestation : Attestation) :
    attestation.encode = layout attestation.attributes := by
  simp [encode, fields, attributes, writeAll_textField, writeAll_unsignedField,
    writeAll_messageFields, writeAll_signedField, writeAll_bytesField, Operation.encode_eq_layout]

/-- The attributes of an identity. -/
def Identity.attributes (identity : Identity) : List (Nat × TypedValue) :=
  [(1, .text identity.countryCode), (2, .text identity.state), (3, .text identity.city),
    (4, .text identity.organization), (5, .text identity.department),
    (6, .text identity.commonName), (7, .text identity.email), (8, .text identity.fullName)]

/-- An identity is laid out by the table of its attributes. -/
theorem Identity.encode_eq_layout (identity : Identity) :
    identity.encode = layout identity.attributes := by
  simp [encode, fields, attributes, writeAll_textField]

/-- The attributes of a location. -/
def Location.attributes (location : Location) : List (Nat × TypedValue) :=
  [(1, .double location.latitude), (2, .double location.longitude),
    (3, .double location.altitude), (4, .single location.accuracyMeters),
    (5, .single location.direction), (6, .single location.velocity)]

/-- A location is laid out by the table of its attributes. -/
theorem Location.encode_eq_layout (location : Location) :
    location.encode = layout location.attributes := by
  simp [encode, fields, attributes, writeAll_doubleField, writeAll_singleField]

/-- The attributes of the record of a timestamp.  An identity or location that is
not there is no attribute. -/
def Record.attributes (record : Record) : List (Nat × TypedValue) :=
  [(1, .bytes record.hash), (2, .bytes record.nonce), (3, .unsigned record.created),
    (4, .text record.source)] ++
    (record.identity.toList.map fun identity => (5, .message (layout identity.attributes))) ++
    (record.location.toList.map fun location => (6, .message (layout location.attributes))) ++
    (record.attestations.map fun attestation => (7, .message (layout attestation.attributes)))

/-- The record of a timestamp is laid out by the table of its attributes. -/
theorem Record.encode_eq_layout (record : Record) : record.encode = layout record.attributes := by
  simp [encode, fields, attributes, writeAll_bytesField, writeAll_unsignedField,
    writeAll_textField, writeAll_messageFields, Identity.encode_eq_layout,
    Location.encode_eq_layout, Attestation.encode_eq_layout]

end CalendarStamp
