import CalendarStamp.Binary
import CalendarStamp.Operation

/-!
# Records

What is kept of a timestamp: the hash and the nonce, when it was created, the
context that is mixed into its digest, and one attestation per calendar.
-/

namespace CalendarStamp

/-- What one calendar said about a digest: the chain so far and the evidence
that running it brought up. -/
structure Attestation where
  calendarUrl : String := ""
  submitted : UInt32 := 0
  operations : List Operation := []
  status : Int32 := 0
  blockHeight : UInt32 := 0
  blockMerkleRoot : Bytes := []
  timestampMerkleRoot : Bytes := []
  transactionId : Bytes := []
deriving DecidableEq

namespace Attestation

/-- An attestation of which only the chain is known. -/
def ofOperations (operations : List Operation) : Attestation := { operations }

/-- Whether the calendar has yet to complete the chain. -/
def isPending (attestation : Attestation) : Bool :=
  attestation.status = AttestationStatus.pending.code

end Attestation

/-- Who made a timestamp. -/
structure Identity where
  countryCode : String := ""
  state : String := ""
  city : String := ""
  organization : String := ""
  department : String := ""
  commonName : String := ""
  email : String := ""
  fullName : String := ""
deriving DecidableEq

/-- Where a timestamp was made. -/
structure Location where
  latitude : Binary64 := .zero
  longitude : Binary64 := .zero
  altitude : Binary64 := .zero
  accuracyMeters : Binary32 := .zero
  direction : Binary32 := .zero
  velocity : Binary32 := .zero
deriving DecidableEq

/-- Equality of locations by the numbers that they hold. -/
def Location.same (a b : Location) : Bool :=
  a.latitude.same b.latitude && a.longitude.same b.longitude && a.altitude.same b.altitude &&
    a.accuracyMeters.same b.accuracyMeters && a.direction.same b.direction &&
    a.velocity.same b.velocity

/-- A timestamp as it is kept. -/
structure Record where
  hash : Bytes := []
  nonce : Bytes := []
  created : UInt32 := 0
  source : String := ""
  identity : Option Identity := none
  location : Option Location := none
  attestations : List Attestation := []
deriving DecidableEq

namespace Record

/-- Equality of optional locations. -/
def sameLocation : Option Location → Option Location → Bool
  | none, none => true
  | some a, some b => a.same b
  | _, _ => false

/-- Equality of records, where locations compare by the numbers that they hold. -/
def same (a b : Record) : Bool :=
  { a with location := none } = { b with location := none } && sameLocation a.location b.location

end Record

end CalendarStamp
