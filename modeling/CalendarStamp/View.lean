import CalendarStamp.Decimal.Style
import CalendarStamp.Instant
import CalendarStamp.Json
import CalendarStamp.Timestamp

/-!
# The view of a timestamp

For inspection a timestamp is shown as JSON: bytes as hexadecimal text, times
as dates, numbers of kinds and statuses as words, and with each attestation the
key that its calendar knows it under.
-/

namespace CalendarStamp

namespace Json

/-- Bytes as hexadecimal text. -/
def hex (bytes : Bytes) : Json :=
  string (Hex.encode bytes)

/-- A double, or null when it is infinite or no number. -/
def double (x : Binary64) : Json :=
  ((Decimal.text? .double .double x.bits.toNat).map number).getD null

/-- A single, or null when it is infinite or no number. -/
def single (x : Binary32) : Json :=
  ((Decimal.text? .single .single x.bits.toNat).map number).getD null

/-- A member that is left out unless a condition holds. -/
def memberIf (condition : Bool) (name : String) (value : Json) : List (String × Json) :=
  if condition then [(name, value)] else []

end Json

/-- The view of an operation. -/
def Operation.view (operation : Operation) : Json :=
  .object
    ([("type", .string (OperationKind.labelOfCode operation.kind))] ++
      Json.memberIf (operation.value ≠ []) "value" (.hex operation.value) ++
      [("status", .string
        (if operation.status = 0 then "" else AttestationStatus.labelOfCode operation.status))] ++
      Json.memberIf (operation.calendarUrl ≠ "") "calendarUrl" (.string operation.calendarUrl) ++
      Json.memberIf (operation.blockHeight ≠ 0) "blockHeight"
        (.natural operation.blockHeight.toNat))

/-- The text of an attestation's key, empty when it cannot be derived. -/
def Timestamp.keyText (timestamp : Timestamp) (attestation : Attestation) : String :=
  match timestamp.calendarKey attestation with
  | .ok key => key.toHex
  | .error _ => ""

/-- The view of an attestation of a timestamp. -/
def Timestamp.viewAttestation (timestamp : Timestamp) (attestation : Attestation) : Json :=
  .object
    [("calendarUrl", .string attestation.calendarUrl),
     ("calendarKey", .string (timestamp.keyText attestation)),
     ("submitted", .string (Instant.text attestation.submitted)),
     ("status", .string (AttestationStatus.labelOfCode attestation.status)),
     ("blockHeight", .natural attestation.blockHeight.toNat),
     ("blockMerkleRoot", .hex attestation.blockMerkleRoot),
     ("timestampMerkleRoot", .hex attestation.timestampMerkleRoot),
     ("transactionId", .hex attestation.transactionId),
     ("operations", .array (attestation.operations.map Operation.view))]

/-- The view of an identity. -/
def Identity.view (identity : Identity) : Json :=
  .object
    [("countryCode", .string identity.countryCode),
     ("state", .string identity.state),
     ("city", .string identity.city),
     ("organization", .string identity.organization),
     ("section", .string identity.department),
     ("commonName", .string identity.commonName),
     ("email", .string identity.email),
     ("fullName", .string identity.fullName)]

/-- The view of a location. -/
def Location.view (location : Location) : Json :=
  .object
    [("latitude", .double location.latitude),
     ("longitude", .double location.longitude),
     ("altitude", .double location.altitude),
     ("accuracyMeters", .single location.accuracyMeters),
     ("direction", .single location.direction),
     ("velocity", .single location.velocity)]

namespace Timestamp

/-- The view of a timestamp. -/
def view (timestamp : Timestamp) : Json :=
  .object
    ([("hash", .hex timestamp.hash),
      ("nonce", .hex timestamp.nonce),
      ("digestHash", .string timestamp.digestHash.toHex),
      ("created", .string (Instant.text timestamp.created)),
      ("source", .string timestamp.source)] ++
      (timestamp.identity.toList.map fun identity => ("identity", identity.view)) ++
      (timestamp.location.toList.map fun location => ("location", location.view)) ++
      [("attestations", .array (timestamp.attestations.map timestamp.viewAttestation))])

/-- A timestamp on one line, after the name of the format. -/
def summary (timestamp : Timestamp) : String :=
  "SimpleStamp: " ++ timestamp.view.compact

end Timestamp

end CalendarStamp
