import CalendarStamp.Bytes

/-!
# Operations of an attestation chain

A chain leads from a digest to a claim.  Its steps hash the bytes so far, put
bytes in front of them or behind them, or attest what was reached.  An
operation is kept with the numbers that it came with, so that a kind or status
from a newer format survives; only reading and executing chains insist on the
known ones.

Main results:

- Theorems `OperationKind.ofCode?_code` and `AttestationStatus.ofCode?_code`:
  every known kind and status is recognised by its number.
- Theorems `OperationKind.ofLabel?_label` and `AttestationStatus.ofLabel?_label`:
  every known kind and status is recognised by its label.
-/

namespace CalendarStamp

/-! ## Kinds of operations -/

/-- What an operation does. -/
inductive OperationKind
  | attestation
  | sha1
  | ripemd160
  | sha256
  | append
  | prepend
deriving DecidableEq

namespace OperationKind

/-- All kinds, in the order of their numbers. -/
def all : List OperationKind :=
  [attestation, sha1, ripemd160, sha256, append, prepend]

/-- The byte that stands for a kind in a calendar's response. -/
def tag : OperationKind → UInt8
  | attestation => 0x00
  | sha1 => 0x02
  | ripemd160 => 0x03
  | sha256 => 0x08
  | append => 0xf0
  | prepend => 0xf1

/-- The number that stands for a kind in a record. -/
def code (kind : OperationKind) : Int32 :=
  Int32.ofNat kind.tag.toNat

/-- The kind with a number, if it is known. -/
def ofCode? (code : Int32) : Option OperationKind :=
  all.find? fun kind => kind.code = code

/-- The kind with a byte, if it is known. -/
def ofTag? (tag : UInt8) : Option OperationKind :=
  all.find? fun kind => kind.tag = tag

/-- The word for a kind. -/
def label : OperationKind → String
  | attestation => "ATTESTATION"
  | sha1 => "SHA1"
  | ripemd160 => "RIPEMD160"
  | sha256 => "SHA256"
  | append => "APPEND"
  | prepend => "PREPEND"

/-- The kind with a label, if there is one. -/
def ofLabel? (label : String) : Option OperationKind :=
  all.find? fun kind => kind.label = label

/-- The word for a number; an unknown number is shown as an attestation. -/
def labelOfCode (code : Int32) : String :=
  ((ofCode? code).getD attestation).label

@[simp] theorem ofCode?_code (kind : OperationKind) : ofCode? kind.code = some kind := by
  cases kind <;> decide

@[simp] theorem ofTag?_tag (kind : OperationKind) : ofTag? kind.tag = some kind := by
  cases kind <;> decide

@[simp] theorem ofLabel?_label (kind : OperationKind) : ofLabel? kind.label = some kind := by
  cases kind <;> decide

/-- A byte is recognised only as the kind that it stands for. -/
theorem tag_of_ofTag? {tag : UInt8} {kind : OperationKind} (h : ofTag? tag = some kind) :
    kind.tag = tag := by
  simpa using List.find?_some h

/-- A number is recognised only as the kind that it stands for. -/
theorem code_of_ofCode? {code : Int32} {kind : OperationKind} (h : ofCode? code = some kind) :
    kind.code = code := by
  simpa using List.find?_some h

end OperationKind

/-! ## Statuses of attestations -/

/-- How far an attestation has come. -/
inductive AttestationStatus
  | invalid
  | unknown
  | pending
  | bitcoin
  | litecoin
deriving DecidableEq

namespace AttestationStatus

/-- All statuses, in the order of their numbers. -/
def all : List AttestationStatus :=
  [invalid, unknown, pending, bitcoin, litecoin]

/-- The number that stands for a status. -/
def code : AttestationStatus → Int32
  | invalid => 0
  | unknown => 1
  | pending => 2
  | bitcoin => 3
  | litecoin => 4

/-- The status with a number, if it is known. -/
def ofCode? (code : Int32) : Option AttestationStatus :=
  all.find? fun status => status.code = code

/-- The word for a status. -/
def label : AttestationStatus → String
  | invalid => "INVALID"
  | unknown => "UNKNOWN"
  | pending => "PENDING"
  | bitcoin => "BITCOIN"
  | litecoin => "LITECOIN"

/-- The status with a label, if there is one. -/
def ofLabel? (label : String) : Option AttestationStatus :=
  all.find? fun status => status.label = label

/-- The word for a number; an unknown number is shown as invalid. -/
def labelOfCode (code : Int32) : String :=
  ((ofCode? code).getD invalid).label

@[simp] theorem ofCode?_code (status : AttestationStatus) : ofCode? status.code = some status := by
  cases status <;> decide

@[simp]
theorem ofLabel?_label (status : AttestationStatus) : ofLabel? status.label = some status := by
  cases status <;> decide

/-- A number is recognised only as the status that it stands for. -/
theorem code_of_ofCode? {code : Int32} {status : AttestationStatus}
    (h : ofCode? code = some status) : status.code = code := by
  simpa using List.find?_some h

end AttestationStatus

/-! ## Operations -/

/-- One step of a chain.  `value` belongs to bytes that are put in front or
behind; the last three fields belong to attestations. -/
structure Operation where
  kind : Int32 := 0
  value : Bytes := []
  status : Int32 := 0
  calendarUrl : String := ""
  blockHeight : UInt32 := 0
deriving DecidableEq

namespace Operation

/-- Replace the bytes by their SHA-1 digest. -/
def sha1 : Operation := { kind := OperationKind.sha1.code }

/-- Replace the bytes by their RIPEMD-160 digest. -/
def ripemd160 : Operation := { kind := OperationKind.ripemd160.code }

/-- Replace the bytes by their SHA-256 digest. -/
def sha256 : Operation := { kind := OperationKind.sha256.code }

/-- Put a value behind the bytes. -/
def append (value : Bytes) : Operation := { kind := OperationKind.append.code, value }

/-- Put a value in front of the bytes. -/
def prepend (value : Bytes) : Operation := { kind := OperationKind.prepend.code, value }

/-- The calendar at this address promises an attestation of the bytes. -/
def pending (calendarUrl : String) : Operation :=
  { kind := OperationKind.attestation.code, status := AttestationStatus.pending.code, calendarUrl }

/-- The bytes are the Merkle root of the block at this height of a blockchain. -/
def anchored (status : AttestationStatus) (blockHeight : UInt32) : Operation :=
  { kind := OperationKind.attestation.code, status := status.code, blockHeight }

/-- The bytes are attested in a way that this library does not know. -/
def unknownAttestation : Operation :=
  { kind := OperationKind.attestation.code, status := AttestationStatus.unknown.code }

/-- The kind of an operation, if it is known. -/
def kind? (operation : Operation) : Option OperationKind :=
  OperationKind.ofCode? operation.kind

end Operation

end CalendarStamp
