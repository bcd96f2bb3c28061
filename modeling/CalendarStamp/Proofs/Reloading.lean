import CalendarStamp.Proofs.RecordLayout
import CalendarStamp.Proofs.Rederivation

/-!
# Storing and reloading a timestamp

A timestamp that was stored and read back differs from what it was in the sign
of zeros alone.  Nothing that is done with a timestamp looks at that sign:
dropping it before an action or after it comes to the same, and the action gives
the same result.  So a program may store a timestamp and go on with what it
reads back.

Main results:

- Theorem `Location.encode_eq_iff`: the signs of zeros are all that is not stored of
  a location.
- Theorem `ofBytes_toBytes`: what is stored reads back, but for the sign of zeros.
- Theorem `step_normalized`: the sign of zeros has no part in what an action does.
- Theorems `results_normalized` and `after_normalized`: nor in what a history does.
- Theorem `reload`: a timestamp that was stored and read back does as it was.
-/

namespace CalendarStamp

open Outcome

/-! ## Records without signs of zeros -/

namespace Wire

theorem doubleField_normalized (number : Nat) (value : Binary64) :
    doubleField number value.normalized = doubleField number value := by
  rw [Binary64.normalized_eq]
  by_cases hzero : value.isZero = true
  · simp [doubleField, hzero, show Binary64.zero.isZero = true from rfl]
  · rw [if_neg hzero]

theorem singleField_normalized (number : Nat) (value : Binary32) :
    singleField number value.normalized = singleField number value := by
  rw [Binary32.normalized_eq]
  by_cases hzero : value.isZero = true
  · simp [singleField, hzero, show Binary32.zero.isZero = true from rfl]
  · rw [if_neg hzero]

end Wire

@[simp] theorem Location.encode_normalized (location : Location) :
    location.normalized.encode = location.encode := by
  simp only [encode, fields, normalized, Wire.doubleField_normalized,
    Wire.singleField_normalized]

/-- Locations have the same stored form when they are the same but for the signs
of zeros. -/
theorem Location.encode_eq_iff {location location' : Location} :
    location.encode = location'.encode ↔ location.normalized = location'.normalized := by
  constructor
  · intro h
    have hfields : location.fields = location'.fields := Wire.Field.writeAll_injective h
    have hread := foldlM_merge_fields {} location
    rw [hfields, foldlM_merge_fields, empty_followedBy, empty_followedBy] at hread
    exact (Option.some.inj hread).symm
  · intro h
    rw [← encode_normalized location, h, encode_normalized]

@[simp] theorem Record.encode_normalized (record : Record) :
    record.normalized.encode = record.encode := by
  rcases record with ⟨hash, nonce, created, source, identity, location, attestations⟩
  cases location <;> simp [encode, fields, normalized]

/-- Dropping the signs of zeros gives an equal record, unless a part of its
location is no number. -/
theorem Record.same_normalized_iff (record : Record) :
    record.same record.normalized = true ↔
      ∀ location, record.location = some location → location.hasNaN = false := by
  rcases record with ⟨hash, nonce, created, source, identity, location, attestations⟩
  cases location <;> simp [same, sameLocation, normalized, Location.same_normalized_iff]

namespace Timestamp

/-! ## Timestamps without signs of zeros -/

/-- The timestamp, where each zero in its location is positive. -/
def normalized (timestamp : Timestamp) : Timestamp :=
  { timestamp with location := timestamp.location.map Location.normalized }

@[simp] theorem attestations_normalized (timestamp : Timestamp) :
    timestamp.normalized.attestations = timestamp.attestations := rfl

@[simp] theorem isStamped_normalized (timestamp : Timestamp) :
    timestamp.normalized.isStamped = timestamp.isStamped := rfl

@[simp] theorem pending_normalized (timestamp : Timestamp) :
    timestamp.normalized.pending = timestamp.pending := rfl

@[simp] theorem normalized_withAttestations (timestamp : Timestamp)
    (attestations : List Attestation) :
    timestamp.normalized.withAttestations attestations =
      (timestamp.withAttestations attestations).normalized := rfl

@[simp] theorem normalized_normalized (timestamp : Timestamp) :
    timestamp.normalized.normalized = timestamp.normalized := by
  rcases timestamp with ⟨⟨hash, nonce, created, source, identity, location, attestations⟩, hhash⟩
  cases location <;> simp [normalized]

@[simp] theorem toBytes_normalized (timestamp : Timestamp) :
    timestamp.normalized.toBytes = timestamp.toBytes :=
  timestamp.toRecord.encode_normalized

@[simp] theorem digestHash_normalized (timestamp : Timestamp) :
    timestamp.normalized.digestHash = timestamp.digestHash := by
  have hpreimage : timestamp.normalized.preimage = timestamp.preimage := by
    rcases timestamp with ⟨⟨hash, nonce, created, source, identity, location, attestations⟩, hhash⟩
    cases location <;> simp [preimage, normalized]
  exact Digest.ext (congrArg Hash.doubleSha256 hpreimage)

/-- What is stored reads back, but for the sign of zeros in the location. -/
theorem ofBytes_toBytes (timestamp : Timestamp)
    (fits : timestamp.toBytes.length < Varint.limit) :
    ofBytes timestamp.toBytes = .ok timestamp.normalized := by
  have hdecoded := timestamp.toRecord.decode?_encode fits Wire.maxNesting
  rw [ofBytes, toBytes, hdecoded]
  exact dif_neg timestamp.hash_ne_nil

/-! ## Actions -/

/-- The action, where each zero that it sets is positive. -/
def Action.normalized : Action → Action
  | .setLocation location => .setLocation location.normalized
  | action => action

theorem setIdentity_normalized (timestamp : Timestamp) (identity : Identity) :
    timestamp.normalized.setIdentity identity = normalized <$> timestamp.setIdentity identity := by
  cases hstamped : timestamp.isStamped with
  | true =>
    rw [setIdentity_of_stamped _ hstamped, setIdentity_of_stamped timestamp.normalized hstamped]
    rfl
  | false =>
    rw [setIdentity_of_unstamped _ hstamped, setIdentity_of_unstamped timestamp.normalized hstamped]
    rfl

theorem setLocation_normalized (timestamp : Timestamp) (location : Location) :
    timestamp.normalized.setLocation location.normalized =
      normalized <$> timestamp.setLocation location := by
  cases hstamped : timestamp.isStamped with
  | true =>
    rw [setLocation_of_stamped _ hstamped, setLocation_of_stamped timestamp.normalized hstamped]
    rfl
  | false =>
    rw [setLocation_of_unstamped _ hstamped, setLocation_of_unstamped timestamp.normalized hstamped]
    rfl

theorem addAttestation_normalized (timestamp : Timestamp) (now : UInt32)
    (attestation : Attestation) :
    timestamp.normalized.addAttestation now attestation =
      Prod.map id normalized (timestamp.addAttestation now attestation) := by
  by_cases hknown :
      (timestamp.attestations.any fun held => held.calendarUrl = attestation.calendarUrl) = true
  · simp [addAttestation, hknown]
  · simp [addAttestation, hknown]

theorem importResponse_normalized (timestamp : Timestamp) (now : UInt32) (bytes : Bytes) :
    timestamp.normalized.importResponse now bytes =
      Prod.map id normalized <$> timestamp.importResponse now bytes := by
  simp only [importResponse_eq, digestHash_normalized, addAttestation_normalized]
  cases Chain.parse bytes with
  | error e => rfl
  | ok operations =>
    simp only [ok_bind]
    cases (Attestation.ofOperations operations).fold timestamp.digestHash.bytes <;> rfl

theorem calendarKey_normalized (timestamp : Timestamp) (attestation : Attestation) :
    timestamp.normalized.calendarKey attestation = timestamp.calendarKey attestation := by
  simp only [calendarKey, digestHash_normalized]

theorem attestationOfKey_normalized (timestamp : Timestamp) (key : CalendarKey) :
    timestamp.normalized.attestationOfKey key = timestamp.attestationOfKey key := by
  simp only [attestationOfKey, digestHash_normalized, attestations_normalized]

theorem positionOfKey?_normalized (timestamp : Timestamp) (key : CalendarKey) :
    timestamp.normalized.positionOfKey? key = timestamp.positionOfKey? key := by
  simp only [positionOfKey?, digestHash_normalized, attestations_normalized]

theorem upgrade_normalized (timestamp : Timestamp) (key : CalendarKey) (bytes : Bytes) :
    timestamp.normalized.upgrade key bytes = normalized <$> timestamp.upgrade key bytes := by
  have hposition := positionOfKey?_normalized timestamp key
  cases hfound : timestamp.positionOfKey? key with
  | none =>
    rw [hfound] at hposition
    rw [upgrade_of_missing hfound, upgrade_of_missing hposition]
    rfl
  | some index =>
    rw [hfound] at hposition
    have hheld := getElem?_of_positionOfKey? hfound
    generalize timestamp.attestations.getD index {} = current at hheld
    have hsame : timestamp.normalized.attestations[index]? = some current := hheld
    cases hpending : current.isPending with
    | false =>
      rw [upgrade_of_final hfound hheld hpending, upgrade_of_final hposition hsame hpending]
      rfl
    | true =>
      rw [upgrade_of_pending hfound hheld hpending, upgrade_of_pending hposition hsame hpending]
      simp only [digestHash_normalized, attestations_normalized, normalized_withAttestations]
      cases Chain.parse bytes with
      | error e => rfl
      | ok continuation =>
        simp only [ok_bind]
        cases extended timestamp.digestHash current continuation <;> rfl

/-! ## Batches -/

theorem importReply_normalized (timestamp : Timestamp) (now : UInt32) (reply : Reply) :
    (importReply now reply).apply timestamp.normalized =
      Prod.map id normalized ((importReply now reply).apply timestamp) := by
  cases reply with
  | error cause => rfl
  | ok bytes =>
    have hcommutes := (Edit.atomic_importResponse now bytes).apply_comm
      (importResponse_normalized timestamp now bytes)
    rw [apply_importReply_ok, apply_importReply_ok, hcommutes]
    rfl

theorem applyStamps_normalized (timestamp : Timestamp) (clock : Clock) (digest : Digest)
    (answers : List (String × Reply)) :
    applyStamps clock digest timestamp.normalized answers =
      Prod.map normalized id (applyStamps clock digest timestamp answers) := by
  induction answers generalizing clock timestamp with
  | nil => rfl
  | cons answer rest ih =>
    rcases answer with ⟨url, reply⟩
    rcases htaken : (importReply clock.now reply).apply timestamp with ⟨result, next⟩
    have hnormalized : (importReply clock.now reply).apply timestamp.normalized =
        (result, next.normalized) := by
      rw [importReply_normalized, htaken]
      rfl
    rw [applyStamps_cons hnormalized, applyStamps_cons htaken, ih]
    rfl

theorem stamp_normalized (timestamp : Timestamp) (clock : Clock) (transport : Transport)
    (start : Nat) (urls : List String) :
    timestamp.normalized.stamp clock transport start urls =
      { timestamp.stamp clock transport start urls with
        timestamp := (timestamp.stamp clock transport start urls).timestamp.normalized } := by
  simp [stamp, stampRequests, applyStamps_normalized]

theorem upgradeReply_normalized (timestamp : Timestamp) (key : CalendarKey) (reply : Reply) :
    (upgradeReply key reply).apply timestamp.normalized =
      Prod.map id normalized ((upgradeReply key reply).apply timestamp) := by
  cases reply with
  | error cause => rfl
  | ok bytes =>
    have hcommutes : (Edit.upgrade key bytes).apply timestamp.normalized =
        Prod.map id normalized ((Edit.upgrade key bytes).apply timestamp) := by
      refine (Edit.atomic_upgrade key bytes).apply_comm ?_
      rw [attempt_upgrade, attempt_upgrade, upgrade_normalized]
      cases timestamp.upgrade key bytes <;> rfl
    rw [apply_upgradeReply_ok, apply_upgradeReply_ok, hcommutes]
    rfl

theorem applyUpgrades_normalized (timestamp : Timestamp)
    (answers : List ((String × CalendarKey) × Reply)) :
    applyUpgrades timestamp.normalized answers =
      Prod.map normalized id (applyUpgrades timestamp answers) := by
  induction answers generalizing timestamp with
  | nil => rfl
  | cons answer rest ih =>
    rcases answer with ⟨⟨url, key⟩, reply⟩
    rcases htaken : (upgradeReply key reply).apply timestamp with ⟨result, next⟩
    have hnormalized : (upgradeReply key reply).apply timestamp.normalized =
        (result, next.normalized) := by
      rw [upgradeReply_normalized, htaken]
      rfl
    rw [applyUpgrades_cons hnormalized, applyUpgrades_cons htaken, ih]
    rfl

theorem update_normalized (timestamp : Timestamp) (transport : Transport) (start : Nat) :
    timestamp.normalized.update transport start =
      { timestamp.update transport start with
        timestamp := (timestamp.update transport start).timestamp.normalized } := by
  simp [update, pendingKeys, keyEvents, calendarKey_normalized, applyUpgrades_normalized]

/-! ## Histories -/

/-- The sign of zeros has no part in what is done with a timestamp. -/
theorem perform_normalized (timestamp : Timestamp) (action : Action) :
    timestamp.normalized.perform action.normalized =
      Prod.map id normalized <$> timestamp.perform action := by
  cases action with
  | setNonce nonce => rfl
  | setSource source => rfl
  | setIdentity identity =>
    simp only [Action.normalized, perform_setIdentity, setIdentity_normalized]
    cases timestamp.setIdentity identity <;> rfl
  | setLocation location =>
    simp only [Action.normalized, perform_setLocation, setLocation_normalized]
    cases timestamp.setLocation location <;> rfl
  | addAttestation now attestation =>
    simp only [Action.normalized, perform_addAttestation, addAttestation_normalized]
    rfl
  | importResponse now bytes =>
    simp only [Action.normalized, perform_importResponse, importResponse_normalized]
    cases timestamp.importResponse now bytes <;> rfl
  | upgrade key bytes =>
    simp only [Action.normalized, perform_upgrade, upgrade_normalized]
    cases timestamp.upgrade key bytes <;> rfl
  | stamp clock transport urls =>
    simp only [Action.normalized, perform_stamp, stamp_normalized]
    rfl
  | update transport =>
    simp only [Action.normalized, perform_update, update_normalized]
    rfl
  | keyOf attestation =>
    simp only [Action.normalized, perform_keyOf, calendarKey_normalized]
    cases timestamp.calendarKey attestation <;> rfl
  | lookUp key =>
    simp only [Action.normalized, perform_lookUp, attestationOfKey_normalized]
    cases timestamp.attestationOfKey key <;> rfl

/-- Dropping the signs of zeros before an action or after it comes to the same,
and the action gives the same result. -/
theorem step_normalized (timestamp : Timestamp) (action : Action) :
    timestamp.normalized.step action.normalized =
      Prod.map id normalized (timestamp.step action) := by
  have hperformed := perform_normalized timestamp action
  cases hperform : timestamp.perform action with
  | ok outcome =>
    rw [hperform] at hperformed
    rw [step_of_ok hperformed, step_of_ok hperform]
    rfl
  | error e =>
    rw [hperform] at hperformed
    rw [step_of_error hperformed, step_of_error hperform]
    rfl

/-- Dropping the signs of zeros before a history or after it comes to the same. -/
theorem after_normalized (timestamp : Timestamp) (actions : List Action) :
    timestamp.normalized.after (actions.map Action.normalized) =
      (timestamp.after actions).normalized := by
  induction actions generalizing timestamp with
  | nil => rfl
  | cons action rest ih =>
    rw [List.map_cons, after_cons, after_cons, step_normalized]
    exact ih (timestamp.step action).2

/-- The signs of zeros have no part in what comes of a history. -/
theorem results_normalized (timestamp : Timestamp) (actions : List Action) :
    timestamp.normalized.results (actions.map Action.normalized) = timestamp.results actions := by
  induction actions generalizing timestamp with
  | nil => rfl
  | cons action rest ih =>
    rw [List.map_cons, results, results, step_normalized]
    exact congrArg _ (ih (timestamp.step action).2)

/-- A timestamp is laid out by the table of its attributes.  Read back, it is
what it was but for the sign of zeros in its location, which is equal unless a
part of the location is no number; it has the same stored form and the same
digest, and whatever is done with it gives the same results and ends in the same
stored form.  The stored form is shorter than the limit of numerals, as it is in
any memory with addresses of 64 bits. -/
theorem reload (timestamp : Timestamp) (fits : timestamp.toBytes.length < Varint.limit) :
    timestamp.toBytes = layout timestamp.toRecord.attributes ∧
      ofBytes timestamp.toBytes = .ok timestamp.normalized ∧
      (timestamp.toRecord.same timestamp.normalized.toRecord = true ↔
        ∀ location, timestamp.location = some location → location.hasNaN = false) ∧
      timestamp.normalized.toBytes = timestamp.toBytes ∧
      timestamp.normalized.digestHash = timestamp.digestHash ∧
      ∀ actions,
        timestamp.normalized.results actions = timestamp.results actions ∧
          (timestamp.normalized.after actions).toBytes = (timestamp.after actions).toBytes := by
  refine ⟨timestamp.toRecord.encode_eq_layout, ofBytes_toBytes timestamp fits,
    timestamp.toRecord.same_normalized_iff, toBytes_normalized timestamp,
    digestHash_normalized timestamp, ?_⟩
  intro actions
  -- Both sides are compared with the run in which every zero is positive.
  have hresults := results_normalized timestamp.normalized actions
  have hafter := after_normalized timestamp.normalized actions
  rw [normalized_normalized] at hresults hafter
  constructor
  · rw [← hresults, results_normalized]
  · rw [← toBytes_normalized, ← hafter, after_normalized, toBytes_normalized]

/-- A timestamp with a negative zero, a number that is none, a status and a kind
that do not exist, and an identity that says nothing. -/
def oddities : Timestamp :=
  { specimen with
    identity := some {}
    location := some { latitude := .negativeZero, direction := ⟨0x7fc00000⟩ }
    attestations := [{ calendarUrl := "a", status := -1, operations := [{ kind := -2 }] }] }

/-- What is read back of it. -/
def rereadOddities : Timestamp :=
  { oddities with location := some { direction := ⟨0x7fc00000⟩ } }

/-- The odd timestamp is stored and read back as another record, which has the same
bytes and answers everything in the same way. -/
theorem reload_oddities :
    oddities.toBytes.length < Varint.limit ∧
      oddities.toBytes = layout oddities.toRecord.attributes ∧
      ofBytes oddities.toBytes = .ok rereadOddities ∧
      rereadOddities.toBytes = oddities.toBytes ∧
      oddities.toRecord.same rereadOddities.toRecord = false ∧
      ∀ actions, rereadOddities.results actions = oddities.results actions := by
  have hfits : oddities.toBytes.length < Varint.limit := by decide +kernel
  have hread : oddities.normalized = rereadOddities := by decide +kernel
  have hsame : oddities.toRecord.same rereadOddities.toRecord = false := by decide +kernel
  rcases reload oddities hfits with ⟨hlayout, hbytes, _, hstored, _, hactions⟩
  rw [hread] at hbytes hstored hactions
  exact ⟨hfits, hlayout, hbytes, hstored, hsame, fun actions => (hactions actions).1⟩

end Timestamp

end CalendarStamp
