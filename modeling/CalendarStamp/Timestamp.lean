import CalendarStamp.Chain
import CalendarStamp.Change
import CalendarStamp.Evidence
import CalendarStamp.Record.Encoding

/-!
# Timestamps

A timestamp is a record with a hash.  Its digest hash mixes the hash with the
nonce and the context; it is what calendars attest and what the timestamp is
stored under.  Attestations are added one per calendar and upgraded when the
calendar delivers the rest of a chain.

What is done to a timestamp is done in place.  An operation that may fail is an
`Edit`; what comes of one that succeeds is also given by a function on timestamps.

Main results:

- Theorem `digestHash_withAttestations`: the digest does not depend on the
  attestations, so it stays the same while calendars answer.
- Theorems `Edit.atomic_importResponse`, `Edit.atomic_upgrade`,
  `Edit.atomic_setIdentity` and `Edit.atomic_setLocation`: an edit that fails
  leaves the timestamp as it was.
-/

namespace CalendarStamp

/-- A record that has a hash. -/
structure Timestamp extends Record where
  hash_ne_nil : hash ≠ []
deriving DecidableEq

namespace Timestamp

/-! ## Making timestamps -/

/-- A new timestamp of a hash, with nothing but a nonce mixed in. -/
def create (now : UInt32) (hash : Bytes) (nonce : Nonce) : Except Error Timestamp :=
  if h : hash = [] then
    .error .emptyHash
  else
    .ok { hash, nonce := nonce.bytes, created := now, hash_ne_nil := h }

/-- The timestamp that a record holds. -/
def ofRecord (record : Record) : Except Error Timestamp :=
  if h : record.hash = [] then .error .missingHash else .ok { record with hash_ne_nil := h }

/-- The timestamp with the given stored form. -/
def ofBytes (bytes : Bytes) : Except Error Timestamp :=
  match Record.decode? Wire.maxNesting bytes with
  | some record => ofRecord record
  | none => .error .undecodableRecord

/-- The stored form of a timestamp. -/
def toBytes (timestamp : Timestamp) : Bytes :=
  timestamp.toRecord.encode

/-! ## The digest -/

/-- The bytes that the digest is computed from: the hash, the nonce, the source
and the stored forms of identity and location, those that are present. -/
def preimage (timestamp : Timestamp) : Bytes :=
  timestamp.hash ++ timestamp.nonce ++ Utf8.encode timestamp.source ++
    (timestamp.identity.map Identity.encode).getD [] ++
    (timestamp.location.map Location.encode).getD []

/-- What calendars attest: the double SHA-256 of the preimage. -/
def digestHash (timestamp : Timestamp) : Digest :=
  ⟨Hash.doubleSha256 timestamp.preimage, by simp⟩

/-! ## Looking at attestations -/

/-- Whether any calendar has answered. -/
def isStamped (timestamp : Timestamp) : Bool :=
  !timestamp.attestations.isEmpty

/-- The attestations that wait for their calendar, in order. -/
def pending (timestamp : Timestamp) : List Attestation :=
  timestamp.attestations.filter Attestation.isPending

/-- Whether any attestation waits for its calendar. -/
def hasPending (timestamp : Timestamp) : Bool :=
  !timestamp.pending.isEmpty

/-- The key under which the calendar of an attestation looks up this timestamp. -/
def calendarKey (timestamp : Timestamp) (attestation : Attestation) : Except Error CalendarKey :=
  deriveKey timestamp.digestHash.bytes attestation.operations

/-- Whether an attestation is looked up under a key.  One whose key cannot be
derived is looked up under none. -/
def hasKey (digest : Digest) (key : CalendarKey) (attestation : Attestation) : Bool :=
  match deriveKey digest.bytes attestation.operations with
  | .ok derived => derived = key
  | .error _ => false

/-- The position of the first attestation that is looked up under a key. -/
def positionOfKey? (timestamp : Timestamp) (key : CalendarKey) : Option Nat :=
  timestamp.attestations.findIdx? (hasKey timestamp.digestHash key)

/-- The first attestation that is looked up under a key. -/
def attestationOfKey (timestamp : Timestamp) (key : CalendarKey) : Except Error Attestation :=
  match timestamp.attestations.find? (hasKey timestamp.digestHash key) with
  | some attestation => .ok attestation
  | none => .error .notFound

/-! ## Changing attestations -/

/-- The timestamp with another list of attestations. -/
def withAttestations (timestamp : Timestamp) (attestations : List Attestation) : Timestamp :=
  { timestamp with attestations }

@[simp]
theorem attestations_withAttestations (timestamp : Timestamp) (attestations : List Attestation) :
    (timestamp.withAttestations attestations).attestations = attestations := rfl

/-- The digest does not depend on the attestations. -/
@[simp]
theorem digestHash_withAttestations (timestamp : Timestamp) (attestations : List Attestation) :
    (timestamp.withAttestations attestations).digestHash = timestamp.digestHash := rfl

/-- Add an attestation, marked with the time, unless one has the same calendar
address.  The flag says whether it was added. -/
def addAttestation (timestamp : Timestamp) (now : UInt32) (attestation : Attestation) :
    Bool × Timestamp :=
  if timestamp.attestations.any fun held => held.calendarUrl = attestation.calendarUrl then
    (false, timestamp)
  else
    (true, timestamp.withAttestations
      (timestamp.attestations ++ [{ attestation with submitted := now }]))

/-- An attestation after more operations of its chain have become known. -/
def extended (digest : Digest) (attestation : Attestation) (continuation : List Operation) :
    Except Error Attestation :=
  { attestation with operations := attestation.operations ++ continuation }.fold digest.bytes

/-! ## Changing the context -/

/-- Replace the nonce. -/
def setNonce (timestamp : Timestamp) (nonce : Nonce) : Timestamp :=
  { timestamp with nonce := nonce.bytes }

/-- Replace the description of the source. -/
def setSource (timestamp : Timestamp) (source : String) : Timestamp :=
  { timestamp with source }

/-! ## Edits -/

/-- What is done to a timestamp in place. -/
abbrev Edit := Change Timestamp Error

namespace Edit

open Change

/-- Take in the answer of a calendar to a new digest.  The flag says whether an
attestation was added. -/
def importResponse (now : UInt32) (bytes : Bytes) : Edit Bool := do
  let operations ← Chain.parse bytes
  let timestamp ← get
  let attestation ← (Attestation.ofOperations operations).fold timestamp.digestHash.bytes
  modifyGet (·.addAttestation now attestation)

/-- Complete the attestation that is looked up under a key with the rest of its
chain. -/
def upgrade (key : CalendarKey) (bytes : Bytes) : Edit Unit := do
  let timestamp ← get
  let some index := timestamp.positionOfKey? key | throw .notFound
  let current := timestamp.attestations.getD index {}
  if current.isPending then
    let continuation ← Chain.parse bytes
    let upgraded ← extended timestamp.digestHash current continuation
    set (timestamp.withAttestations (timestamp.attestations.set index upgraded))
  else
    throw .alreadyUpgraded

/-- Go on only as long as no calendar has answered. -/
def ensureUnstamped (field : Context) : Edit Unit := do
  let timestamp ← get
  if timestamp.isStamped then
    throw (.alreadyStamped field)
  else
    return ()

/-- Replace the identity, as long as no calendar has answered. -/
def setIdentity (identity : Identity) : Edit Unit := do
  ensureUnstamped .identity
  modify ({ · with identity := some identity })

/-- Replace the location, as long as no calendar has answered. -/
def setLocation (location : Location) : Edit Unit := do
  ensureUnstamped .location
  modify ({ · with location := some location })

/-! ### Edits that fail -/

theorem atomic_importResponse (now : UInt32) (bytes : Bytes) :
    Atomic id (importResponse now bytes) := by
  refine (steady_lift _).bind_atomic fun operations => ?_
  refine steady_get.bind_atomic fun timestamp => ?_
  refine (steady_lift _).bind_atomic fun attestation => ?_
  exact (total_modifyGet _).atomic

theorem atomic_upgrade (key : CalendarKey) (bytes : Bytes) : Atomic id (upgrade key bytes) := by
  refine steady_get.bind_atomic fun timestamp => ?_
  split
  · dsimp only
    split
    · refine (steady_lift _).bind_atomic fun continuation => ?_
      refine (steady_lift _).bind_atomic fun upgraded => ?_
      exact (total_set _).atomic
    · exact (steady_throw _).atomic
  · exact (steady_throw _).atomic

theorem steady_ensureUnstamped (field : Context) : Steady id (ensureUnstamped field) := by
  refine steady_get.bind fun timestamp => ?_
  split
  · exact steady_throw _
  · exact steady_pure _

theorem ensureUnstamped_of_stamped {timestamp : Timestamp} (h : timestamp.isStamped = true)
    (field : Context) :
    (ensureUnstamped field).apply timestamp = (.error (.alreadyStamped field), timestamp) := by
  rw [ensureUnstamped, apply_bind_of_ok (apply_get timestamp), if_pos h, apply_throw]

theorem ensureUnstamped_of_unstamped {timestamp : Timestamp} (h : timestamp.isStamped = false)
    (field : Context) : (ensureUnstamped field).apply timestamp = (.ok (), timestamp) := by
  rw [ensureUnstamped, apply_bind_of_ok (apply_get timestamp), if_neg (by simp [h]), apply_pure]

theorem atomic_setIdentity (identity : Identity) : Atomic id (setIdentity identity) :=
  (steady_ensureUnstamped .identity).bind_atomic fun _ => (total_modify _).atomic

theorem atomic_setLocation (location : Location) : Atomic id (setLocation location) :=
  (steady_ensureUnstamped .location).bind_atomic fun _ => (total_modify _).atomic

end Edit

/-! ## What comes of edits -/

open Change Outcome

variable (timestamp : Timestamp)

/-- The timestamp after the answer to a new digest, and whether an attestation was
added. -/
def importResponse (now : UInt32) (bytes : Bytes) : Except Error (Bool × Timestamp) :=
  (Edit.importResponse now bytes).attempt timestamp

/-- The timestamp after an upgrade. -/
def upgrade (key : CalendarKey) (bytes : Bytes) : Except Error Timestamp :=
  Prod.snd <$> (Edit.upgrade key bytes).attempt timestamp

/-- The timestamp with another identity. -/
def setIdentity (identity : Identity) : Except Error Timestamp :=
  Prod.snd <$> (Edit.setIdentity identity).attempt timestamp

/-- The timestamp with another location. -/
def setLocation (location : Location) : Except Error Timestamp :=
  Prod.snd <$> (Edit.setLocation location).attempt timestamp

/-- An answer to a new digest is read, run and added. -/
theorem importResponse_eq (now : UInt32) (bytes : Bytes) :
    timestamp.importResponse now bytes =
      Chain.parse bytes >>= fun operations =>
        (Attestation.ofOperations operations).fold timestamp.digestHash.bytes >>=
          fun attestation => .ok (timestamp.addAttestation now attestation) := by
  rw [importResponse, Edit.importResponse, attempt_lift_bind]
  refine bind_congr fun operations => ?_
  rw [attempt_get_bind, attempt_lift_bind]
  refine bind_congr fun attestation => ?_
  rw [attempt_modifyGet]

theorem attempt_upgrade (key : CalendarKey) (bytes : Bytes) :
    (Edit.upgrade key bytes).attempt timestamp = ((), ·) <$> timestamp.upgrade key bytes := by
  rw [upgrade]
  cases (Edit.upgrade key bytes).attempt timestamp <;> rfl

section Upgrade

variable {timestamp} {key : CalendarKey} {index : Nat} {current : Attestation}

/-- An upgrade under a key that no attestation is looked up under fails. -/
theorem upgrade_of_missing (h : timestamp.positionOfKey? key = none) (bytes : Bytes) :
    timestamp.upgrade key bytes = .error .notFound := by
  rw [upgrade, Edit.upgrade, attempt_get_bind, h, attempt_throw, map_error]

/-- An upgrade of a final attestation is refused. -/
theorem upgrade_of_final (hfound : timestamp.positionOfKey? key = some index)
    (hheld : timestamp.attestations[index]? = some current)
    (hfinal : current.isPending = false) (bytes : Bytes) :
    timestamp.upgrade key bytes = .error .alreadyUpgraded := by
  rw [upgrade, Edit.upgrade, attempt_get_bind, hfound]
  simp only [List.getD_eq_getElem?_getD, hheld, Option.getD_some, hfinal, Bool.false_eq_true,
    if_false, attempt_throw, map_error]

/-- An upgrade of a pending attestation reads the rest of its chain and runs it
behind what is there. -/
theorem upgrade_of_pending (hfound : timestamp.positionOfKey? key = some index)
    (hheld : timestamp.attestations[index]? = some current)
    (hpending : current.isPending = true) (bytes : Bytes) :
    timestamp.upgrade key bytes =
      Chain.parse bytes >>= fun continuation =>
        extended timestamp.digestHash current continuation >>= fun upgraded =>
          .ok (timestamp.withAttestations (timestamp.attestations.set index upgraded)) := by
  rw [upgrade, Edit.upgrade, attempt_get_bind, hfound]
  simp only [List.getD_eq_getElem?_getD, hheld, Option.getD_some, hpending, if_true,
    attempt_lift_bind, attempt_set]
  cases Chain.parse bytes with
  | error e => rfl
  | ok continuation =>
    simp only [ok_bind]
    cases extended timestamp.digestHash current continuation <;> rfl

end Upgrade

theorem setIdentity_of_stamped (h : timestamp.isStamped = true) (identity : Identity) :
    timestamp.setIdentity identity = .error (.alreadyStamped .identity) := by
  rw [setIdentity, Edit.setIdentity, attempt_bind_of_error (Edit.ensureUnstamped_of_stamped h _),
    map_error]

theorem setIdentity_of_unstamped (h : timestamp.isStamped = false) (identity : Identity) :
    timestamp.setIdentity identity = .ok { timestamp with identity := some identity } := by
  rw [setIdentity, Edit.setIdentity, attempt_bind_of_ok (Edit.ensureUnstamped_of_unstamped h _),
    attempt_modify, map_ok]

theorem setLocation_of_stamped (h : timestamp.isStamped = true) (location : Location) :
    timestamp.setLocation location = .error (.alreadyStamped .location) := by
  rw [setLocation, Edit.setLocation, attempt_bind_of_error (Edit.ensureUnstamped_of_stamped h _),
    map_error]

theorem setLocation_of_unstamped (h : timestamp.isStamped = false) (location : Location) :
    timestamp.setLocation location = .ok { timestamp with location := some location } := by
  rw [setLocation, Edit.setLocation, attempt_bind_of_ok (Edit.ensureUnstamped_of_unstamped h _),
    attempt_modify, map_ok]

end Timestamp

end CalendarStamp
