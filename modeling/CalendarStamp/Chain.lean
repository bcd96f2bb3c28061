import CalendarStamp.Operation
import CalendarStamp.Varint

/-!
# Chains as calendars send them

A calendar answers with a sequence of operations without separators.  Each
operation starts with the byte of its kind.  A value that is put in front or
behind follows as a block.  An attestation goes on with a tag of eight bytes
and a payload block, whose layout depends on the tag and whose surplus bytes
mean nothing.

Main results:

- Theorem `readOperation_length`: an operation takes at least one byte, so
  reading a chain ends.
- Theorem `statusOfTag_tagOf`: the tags of the known attestations are told apart.
-/

namespace CalendarStamp.Chain

open Outcome

/-! ## Attestation tags -/

/-- The number of bytes in an attestation's tag. -/
def tagLength : Nat := 8

/-- The tag of an attestation with a status, for the statuses that calendars send. -/
def tagOf : AttestationStatus → Option Bytes
  | .bitcoin => some [0x05, 0x88, 0x96, 0x0d, 0x73, 0xd7, 0x19, 0x01]
  | .litecoin => some [0x06, 0x86, 0x9a, 0x0d, 0x73, 0xd7, 0x1b, 0x45]
  | .pending => some [0x83, 0xdf, 0xe3, 0x0d, 0x2e, 0xf9, 0x0c, 0x8e]
  | .invalid | .unknown => none

/-- The status that a tag announces; an unfamiliar tag announces an unknown one. -/
def statusOfTag (tag : Bytes) : AttestationStatus :=
  (AttestationStatus.all.find? fun status => tagOf status = some tag).getD .unknown

/-- A known tag is recognised. -/
theorem statusOfTag_tagOf {status : AttestationStatus} {tag : Bytes}
    (h : tagOf status = some tag) : statusOfTag tag = status := by
  cases status <;> simp only [tagOf, Option.some.injEq, reduceCtorEq] at h <;> subst h <;> decide

/-! ## Reading -/

/-- Block heights stay below this bound. -/
def heightLimit : Nat := 1 <<< 32

/-- Read the payload of an attestation with the status that its tag announced. -/
def readPayload (status : AttestationStatus) (payload : Bytes) : Except Error Operation :=
  match status with
  | .pending => do
    let (url, _) ← Varint.readBlock payload
    match Utf8.decode? url with
    | some calendarUrl => return .pending calendarUrl
    | none => throw .invalidCalendarUrl
  | .bitcoin | .litecoin => do
    let (height, _) ← Varint.read payload
    if height < heightLimit then
      return .anchored status (UInt32.ofNat height)
    else
      throw .varintOverflow
  | .invalid | .unknown => return .unknownAttestation

/-- Read what follows the kind of an attestation. -/
def readAttestation (bytes : Bytes) : Except Error (Operation × Bytes) :=
  if bytes.length < tagLength then
    throw (.truncatedInput tagLength bytes.length)
  else do
    let (payload, rest) ← Varint.readBlock (bytes.drop tagLength)
    let operation ← readPayload (statusOfTag (bytes.take tagLength)) payload
    return (operation, rest)

/-- Read what follows the byte of a kind. -/
def readBody (kind : OperationKind) (bytes : Bytes) : Except Error (Operation × Bytes) :=
  match kind with
  | .sha1 => return (.sha1, bytes)
  | .ripemd160 => return (.ripemd160, bytes)
  | .sha256 => return (.sha256, bytes)
  | .append => do
    let (value, rest) ← Varint.readBlock bytes
    return (.append value, rest)
  | .prepend => do
    let (value, rest) ← Varint.readBlock bytes
    return (.prepend value, rest)
  | .attestation => readAttestation bytes

/-- Read an operation that starts with the given byte. -/
def readOperation (tag : UInt8) (bytes : Bytes) : Except Error (Operation × Bytes) :=
  match OperationKind.ofTag? tag with
  | some kind => readBody kind bytes
  | none => throw (.unsupportedOperation tag)

theorem readAttestation_length {bytes rest : Bytes} {operation : Operation}
    (h : readAttestation bytes = .ok (operation, rest)) : rest.length ≤ bytes.length := by
  unfold readAttestation at h
  split at h
  · simp at h
  · obtain ⟨⟨payload, tail⟩, hblock, h⟩ := bind_eq_ok.mp h
    obtain ⟨read, _, h⟩ := bind_eq_ok.mp h
    have hlength := Varint.readBlock_length hblock
    simp only [pure_eq, Except.ok.injEq, Prod.mk.injEq] at h
    rw [← h.2]
    simp only [List.length_drop] at hlength
    omega

theorem readBody_length {kind : OperationKind} {bytes rest : Bytes} {operation : Operation}
    (h : readBody kind bytes = .ok (operation, rest)) : rest.length ≤ bytes.length := by
  have hblock : ∀ {make : Bytes → Operation},
      (do
        let (value, tail) ← Varint.readBlock bytes
        return (make value, tail)) = .ok (operation, rest) → rest.length ≤ bytes.length := by
    intro make h
    obtain ⟨⟨value, tail⟩, hblock, h⟩ := bind_eq_ok.mp h
    simp only [pure_eq, Except.ok.injEq, Prod.mk.injEq] at h
    exact h.2 ▸ Nat.le_of_lt (Varint.readBlock_length hblock)
  cases kind with
  | attestation => exact readAttestation_length h
  | sha1 => simp_all [readBody]
  | ripemd160 => simp_all [readBody]
  | sha256 => simp_all [readBody]
  | append => exact hblock h
  | prepend => exact hblock h

/-- Reading an operation adds no bytes to what follows its first byte. -/
theorem readOperation_length {tag : UInt8} {bytes rest : Bytes} {operation : Operation}
    (h : readOperation tag bytes = .ok (operation, rest)) : rest.length ≤ bytes.length := by
  unfold readOperation at h
  split at h
  · exact readBody_length h
  · simp at h

/-- Read a chain.  The first faulty operation makes the whole chain fail. -/
def parse (bytes : Bytes) : Except Error (List Operation) :=
  match bytes with
  | [] => .ok []
  | tag :: bytes' =>
    match _h : readOperation tag bytes' with
    | .error e => .error e
    | .ok (operation, rest) => (operation :: ·) <$> parse rest
termination_by bytes.length
decreasing_by exact Nat.lt_succ_of_le (readOperation_length _h)

/-! ## Writing -/

/-- The payload of an attestation, for the statuses that calendars send. -/
def writePayload (status : AttestationStatus) (operation : Operation) : Bytes :=
  match status with
  | .pending => Varint.writeBlock (Utf8.encode operation.calendarUrl)
  | _ => Varint.write operation.blockHeight.toNat

/-- The bytes of an attestation after its kind. -/
def writeAttestation (operation : Operation) : Except Error Bytes :=
  match AttestationStatus.ofCode? operation.status with
  | none => throw (.unserializableAttestation operation.status)
  | some status =>
    match tagOf status with
    | none => throw (.unserializableAttestation operation.status)
    | some tag => return tag ++ Varint.writeBlock (writePayload status operation)

/-- The bytes of an operation after its kind. -/
def writeBody (kind : OperationKind) (operation : Operation) : Except Error Bytes :=
  match kind with
  | .sha1 | .ripemd160 | .sha256 => return []
  | .append | .prepend => return Varint.writeBlock operation.value
  | .attestation => writeAttestation operation

/-- The bytes of an operation. -/
def writeOperation (operation : Operation) : Except Error Bytes :=
  match operation.kind? with
  | none => throw (.unhandledOperation operation.kind)
  | some kind => (kind.tag :: ·) <$> writeBody kind operation

/-- The bytes of a chain, with every number as short as possible. -/
def serialize (operations : List Operation) : Except Error Bytes :=
  List.flatten <$> operations.mapM writeOperation

end CalendarStamp.Chain
