import CalendarStamp.Hex

/-!
# What can go wrong with a timestamp

Each cause of failure in reading chains, running them and changing timestamps
is a constructor here, with the numbers and names that its message shows.
-/

namespace CalendarStamp

/-- The parts of a timestamp's context that are fixed once it is stamped. -/
inductive Context
  | identity
  | location
deriving DecidableEq

/-- The word for a part of the context in messages. -/
def Context.name : Context → String
  | .identity => "identity"
  | .location => "location"

/-- The cause of a failed operation on chains, keys or timestamps. -/
inductive Error
  /-- The input ends before `needed` bytes could be read. -/
  | truncatedInput (needed available : Nat)
  /-- A number is too large for its field. -/
  | varintOverflow
  /-- A chain holds a byte that starts no operation. -/
  | unsupportedOperation (tag : UInt8)
  /-- An operation has a kind that cannot be executed or written. -/
  | unhandledOperation (kind : Int32)
  /-- A pending attestation names its calendar in invalid UTF-8. -/
  | invalidCalendarUrl
  /-- An attestation has a status that no calendar response can carry. -/
  | unserializableAttestation (status : Int32)
  /-- No attestation is looked up under the given key. -/
  | notFound
  /-- The attestation is not pending any more. -/
  | alreadyUpgraded
  /-- The timestamp is stamped, so this part of its context is fixed. -/
  | alreadyStamped (part : Context)
  /-- A timestamp of nothing was asked for. -/
  | emptyHash
  /-- The bytes are not the encoding of a record. -/
  | undecodableRecord
  /-- The record holds no hash, so it is no timestamp. -/
  | missingHash
  /-- A digest must have 32 bytes. -/
  | invalidDigestLength (actual : Nat)
  /-- A nonce must have 16 bytes. -/
  | invalidNonce
  /-- A text is not hexadecimal. -/
  | hex (cause : Hex.Error)
deriving DecidableEq

namespace Error

/-- Two lowercase hexadecimal digits after a `0x`. -/
def tagText (tag : UInt8) : String :=
  "0x" ++ Hex.encode [tag]

/-- The sentence that reports the error. -/
def message : Error → String
  | truncatedInput needed available =>
    "Truncated input: need " ++ toString needed ++ " bytes, only " ++ toString available ++
      " available"
  | varintOverflow => "Varint does not fit in 64 bits"
  | unsupportedOperation tag => "Operation with type " ++ tagText tag ++ " not supported"
  | unhandledOperation kind => "Cannot handle an operation of type " ++ toString kind.toInt
  | invalidCalendarUrl => "Calendar URL is not valid UTF-8"
  | unserializableAttestation status =>
    "Attestation with status " ++ toString status.toInt ++ " has no wire representation"
  | notFound => "No attestation was found with a matching calendar key"
  | alreadyUpgraded => "Attestation has already been upgraded with timestamp data"
  | alreadyStamped part =>
    "Timestamp already sent for attestation, cannot change " ++ part.name
  | emptyHash => "Timestamp requires a hash with content"
  | undecodableRecord => "Failed to decode timestamp record: "
  | missingHash => "Failed to decode timestamp record: record has no hash"
  | invalidDigestLength actual =>
    "Invalid digest length: expected 32, got " ++ toString actual
  | invalidNonce => "Invalid nonce"
  | hex cause => "Hex encoding error: " ++ cause.message

end Error

end CalendarStamp
