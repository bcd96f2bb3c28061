import CalendarStamp.Record
import CalendarStamp.Wire.Message

/-!
# The stored form of records

Each record lists its fields for writing and says how a field that is read
changes it.  Field numbers follow the order of the fields in the structures.
-/

namespace CalendarStamp

open Wire

/-! ## Operations -/

namespace Operation

/-- The fields of an operation. -/
def fields (operation : Operation) : List Field :=
  signedField 1 operation.kind ++ bytesField 2 operation.value ++
    signedField 3 operation.status ++ textField 4 operation.calendarUrl ++
    varintField 5 operation.blockHeight.toNat

/-- Change an operation by a field. -/
def merge (operation : Operation) (field : Field) : Option Operation :=
  match field.number, field.payload with
  | 1, .varint value => some { operation with kind := signed32 value }
  | 2, .delimited value => some { operation with value }
  | 3, .varint value => some { operation with status := signed32 value }
  | 4, .delimited content => do
    let calendarUrl ← Utf8.decode? content
    return { operation with calendarUrl }
  | 5, .varint value => some { operation with blockHeight := unsigned32 value }
  | number, _ => if number ≤ 5 then none else some operation

/-- The stored form of an operation. -/
def encode (operation : Operation) : Bytes :=
  Field.writeAll operation.fields

/-- Read an operation in which groups may nest to a depth of `nesting`. -/
def decode? (nesting : Nat) (bytes : Bytes) : Option Operation :=
  decode merge nesting {} bytes

end Operation

/-! ## Attestations -/

namespace Attestation

/-- The fields of an attestation. -/
def fields (attestation : Attestation) : List Field :=
  textField 1 attestation.calendarUrl ++ varintField 2 attestation.submitted.toNat ++
    (attestation.operations.map fun operation => messageField 3 operation.encode) ++
    signedField 4 attestation.status ++ varintField 5 attestation.blockHeight.toNat ++
    bytesField 6 attestation.blockMerkleRoot ++ bytesField 7 attestation.timestampMerkleRoot ++
    bytesField 8 attestation.transactionId

/-- Change an attestation by a field. -/
def merge (nesting : Nat) (attestation : Attestation) (field : Field) : Option Attestation :=
  match field.number, field.payload with
  | 1, .delimited content => do
    let calendarUrl ← Utf8.decode? content
    return { attestation with calendarUrl }
  | 2, .varint value => some { attestation with submitted := unsigned32 value }
  | 3, .delimited content => do
    let operation ← Operation.decode? (nesting - 1) content
    return { attestation with operations := attestation.operations ++ [operation] }
  | 4, .varint value => some { attestation with status := signed32 value }
  | 5, .varint value => some { attestation with blockHeight := unsigned32 value }
  | 6, .delimited blockMerkleRoot => some { attestation with blockMerkleRoot }
  | 7, .delimited timestampMerkleRoot => some { attestation with timestampMerkleRoot }
  | 8, .delimited transactionId => some { attestation with transactionId }
  | number, _ => if number ≤ 8 then none else some attestation

/-- The stored form of an attestation. -/
def encode (attestation : Attestation) : Bytes :=
  Field.writeAll attestation.fields

/-- Read an attestation. -/
def decode? (nesting : Nat) (bytes : Bytes) : Option Attestation :=
  decode (merge nesting) nesting {} bytes

end Attestation

/-! ## Identities -/

namespace Identity

/-- The fields of an identity. -/
def fields (identity : Identity) : List Field :=
  textField 1 identity.countryCode ++ textField 2 identity.state ++ textField 3 identity.city ++
    textField 4 identity.organization ++ textField 5 identity.department ++
    textField 6 identity.commonName ++ textField 7 identity.email ++ textField 8 identity.fullName

/-- Replace the text with a number. -/
def setText (identity : Identity) (number : Nat) (text : String) : Identity :=
  match number with
  | 1 => { identity with countryCode := text }
  | 2 => { identity with state := text }
  | 3 => { identity with city := text }
  | 4 => { identity with organization := text }
  | 5 => { identity with department := text }
  | 6 => { identity with commonName := text }
  | 7 => { identity with email := text }
  | 8 => { identity with fullName := text }
  | _ => identity

/-- Change an identity by a field. -/
def merge (identity : Identity) (field : Field) : Option Identity :=
  if field.number ≤ 8 then
    match field.payload with
    | .delimited content => identity.setText field.number <$> Utf8.decode? content
    | _ => none
  else
    some identity

/-- The stored form of an identity. -/
def encode (identity : Identity) : Bytes :=
  Field.writeAll identity.fields

/-- Read an identity on top of a given one. -/
def decodeOnto? (start : Identity) (nesting : Nat) (bytes : Bytes) : Option Identity :=
  decode merge nesting start bytes

end Identity

/-! ## Locations -/

namespace Location

/-- The fields of a location. -/
def fields (location : Location) : List Field :=
  doubleField 1 location.latitude ++ doubleField 2 location.longitude ++
    doubleField 3 location.altitude ++ singleField 4 location.accuracyMeters ++
    singleField 5 location.direction ++ singleField 6 location.velocity

/-- Change a location by a field. -/
def merge (location : Location) (field : Field) : Option Location :=
  match field.number, field.payload with
  | 1, .fixed64 bits => some { location with latitude := ⟨bits⟩ }
  | 2, .fixed64 bits => some { location with longitude := ⟨bits⟩ }
  | 3, .fixed64 bits => some { location with altitude := ⟨bits⟩ }
  | 4, .fixed32 bits => some { location with accuracyMeters := ⟨bits⟩ }
  | 5, .fixed32 bits => some { location with direction := ⟨bits⟩ }
  | 6, .fixed32 bits => some { location with velocity := ⟨bits⟩ }
  | number, _ => if number ≤ 6 then none else some location

/-- The stored form of a location. -/
def encode (location : Location) : Bytes :=
  Field.writeAll location.fields

/-- Read a location on top of a given one. -/
def decodeOnto? (start : Location) (nesting : Nat) (bytes : Bytes) : Option Location :=
  decode merge nesting start bytes

end Location

/-! ## Timestamps -/

namespace Record

/-- The fields of a record. -/
def fields (record : Record) : List Field :=
  bytesField 1 record.hash ++ bytesField 2 record.nonce ++
    varintField 3 record.created.toNat ++ textField 4 record.source ++
    (record.identity.toList.map fun identity => messageField 5 identity.encode) ++
    (record.location.toList.map fun location => messageField 6 location.encode) ++
    (record.attestations.map fun attestation => messageField 7 attestation.encode)

/-- Change a record by a field.  A repeated identity or location is merged into
the one that is there; attestations are collected. -/
def merge (nesting : Nat) (record : Record) (field : Field) : Option Record :=
  match field.number, field.payload with
  | 1, .delimited hash => some { record with hash }
  | 2, .delimited nonce => some { record with nonce }
  | 3, .varint value => some { record with created := unsigned32 value }
  | 4, .delimited content => do
    let source ← Utf8.decode? content
    return { record with source }
  | 5, .delimited content => do
    let identity ← (record.identity.getD {}).decodeOnto? (nesting - 1) content
    return { record with identity := some identity }
  | 6, .delimited content => do
    let location ← (record.location.getD {}).decodeOnto? (nesting - 1) content
    return { record with location := some location }
  | 7, .delimited content => do
    let attestation ← Attestation.decode? (nesting - 1) content
    return { record with attestations := record.attestations ++ [attestation] }
  | number, _ => if number ≤ 7 then none else some record

/-- The stored form of a record. -/
def encode (record : Record) : Bytes :=
  Field.writeAll record.fields

/-- Read a record. -/
def decode? (nesting : Nat) (bytes : Bytes) : Option Record :=
  decode (merge nesting) nesting {} bytes

end Record

end CalendarStamp
