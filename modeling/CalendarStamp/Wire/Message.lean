import CalendarStamp.Binary
import CalendarStamp.Text.Utf8
import CalendarStamp.Wire.Field

/-!
# Messages made of fields

A message is written as its fields in the order of their numbers, without those
that are zero or empty.  It is read by merging one field after the other into a
starting value, so a later field overrides an earlier one of the same number
and unknown numbers are passed over.

Main results:

- Theorem `signed32_signedValue`: a signed number reads back from its 64-bit form.
-/

namespace CalendarStamp.Wire

/-! ## Writing fields -/

/-- A field for a number, unless it is zero. -/
def varintField (number value : Nat) : List Field :=
  if value = 0 then [] else [⟨number, .varint value⟩]

/-- The 64-bit two's complement of a signed number. -/
def signedValue (value : Int32) : Nat :=
  (value.toInt % UInt64.size).toNat

/-- A field for a signed number, unless it is zero.  A negative number is
extended to 64 bits first. -/
def signedField (number : Nat) (value : Int32) : List Field :=
  varintField number (signedValue value)

/-- A field for bytes, unless there are none. -/
def bytesField (number : Nat) (content : Bytes) : List Field :=
  if content = [] then [] else [⟨number, .delimited content⟩]

/-- A field for a text, unless it is empty. -/
def textField (number : Nat) (text : String) : List Field :=
  bytesField number (Utf8.encode text)

/-- A field for a double, unless it is zero. -/
def doubleField (number : Nat) (value : Binary64) : List Field :=
  if value.isZero then [] else [⟨number, .fixed64 value.bits⟩]

/-- A field for a single, unless it is zero. -/
def singleField (number : Nat) (value : Binary32) : List Field :=
  if value.isZero then [] else [⟨number, .fixed32 value.bits⟩]

/-- A field for a nested message, which is written even when it is empty. -/
def messageField (number : Nat) (content : Bytes) : Field :=
  ⟨number, .delimited content⟩

/-! ## Reading messages -/

/-- How deep groups and messages may nest in a message that stands alone. -/
def maxNesting : Nat := 100

/-- The low 32 bits of a number, as an unsigned number. -/
def unsigned32 (value : Nat) : UInt32 :=
  UInt32.ofNat value

/-- The low 32 bits of a number, as a signed number. -/
def signed32 (value : Nat) : Int32 :=
  Int32.ofNat value

/-- Merge the fields that the bytes hold into a starting value. -/
def decode {α : Type} (merge : α → Field → Option α) (nesting : Nat) (start : α)
    (bytes : Bytes) : Option α := do
  let fields ← Field.readAll nesting bytes
  fields.foldlM merge start

/-- The low 32 bits of a signed number's 64-bit form give it back. -/
@[simp] theorem signed32_signedValue (value : Int32) : signed32 (signedValue value) = value := by
  have h1 := value.toInt_lt
  have h2 := value.le_toInt
  apply Int32.toInt_inj.mp
  simp only [signed32, signedValue, Int32.toInt_ofNat', Int32.size, UInt64.size]
  rw [Int.toNat_of_nonneg (by omega)]
  simp only [Int.bmod]
  omega

end CalendarStamp.Wire
