import CalendarStamp.Client

/-!
# Histories of a timestamp

Everything that can be done with a timestamp is an action with its
circumstances: the time, and the replies of calendars.  An action works on the
timestamp in place, and gives a result or fails.  A history is what a sequence of
actions makes of a timestamp, failed ones among them.

Main results:

- Theorem `Action.atomic_edit`: an action that fails has changed nothing.
- Theorem `step_of_error`: so a history goes on with the timestamp as it was.
- Theorem `after_append`: a history may be interrupted anywhere and continued.
-/

namespace CalendarStamp.Timestamp

/-! ## Actions -/

/-- Something to do with a timestamp. -/
inductive Action
  | setNonce (nonce : Nonce)
  | setSource (source : String)
  | setIdentity (identity : Identity)
  | setLocation (location : Location)
  | addAttestation (now : UInt32) (attestation : Attestation)
  | importResponse (now : UInt32) (bytes : Bytes)
  | upgrade (key : CalendarKey) (bytes : Bytes)
  | stamp (clock : Clock) (transport : Transport) (urls : List String)
  | update (transport : Transport)
  | keyOf (attestation : Attestation)
  | lookUp (key : CalendarKey)

/-- What an action gives back. -/
inductive Result
  | nothing
  /-- Whether an attestation was added. -/
  | added (flag : Bool)
  | stamped (count : Nat) (requests : List Request) (log : List Event)
  | updated (upgraded : Bool) (requests : List Request) (log : List Event)
  | key (key : CalendarKey)
  | attestation (attestation : Attestation)
deriving DecidableEq

/-! ## Carrying out actions -/

open Change

/-- What is done to a timestamp in place. -/
def Action.edit : Action → Edit Result
  | .setNonce nonce => do
    modify (·.setNonce nonce)
    return .nothing
  | .setSource source => do
    modify (·.setSource source)
    return .nothing
  | .setIdentity identity => (fun _ => .nothing) <$> Edit.setIdentity identity
  | .setLocation location => (fun _ => .nothing) <$> Edit.setLocation location
  | .addAttestation now attestation => .added <$> modifyGet (·.addAttestation now attestation)
  | .importResponse now bytes => .added <$> Edit.importResponse now bytes
  | .upgrade key bytes => (fun _ => .nothing) <$> Edit.upgrade key bytes
  | .stamp clock transport urls =>
    modifyGet fun timestamp =>
      let stamping := timestamp.stamp clock transport 0 urls
      (.stamped stamping.count stamping.requests stamping.log, stamping.timestamp)
  | .update transport =>
    modifyGet fun timestamp =>
      let updating := timestamp.update transport 0
      (.updated updating.upgraded updating.requests updating.log, updating.timestamp)
  | .keyOf attestation => do
    let timestamp ← get
    let key ← timestamp.calendarKey attestation
    return .key key
  | .lookUp key => do
    let timestamp ← get
    let attestation ← timestamp.attestationOfKey key
    return .attestation attestation

/-- An action that fails has changed nothing. -/
theorem Action.atomic_edit (action : Action) : Atomic id action.edit := by
  cases action with
  | setNonce nonce => exact (total_modify _).atomic.bind_total fun _ => total_pure _
  | setSource source => exact (total_modify _).atomic.bind_total fun _ => total_pure _
  | setIdentity identity => exact (Edit.atomic_setIdentity identity).map _
  | setLocation location => exact (Edit.atomic_setLocation location).map _
  | addAttestation now attestation => exact (total_modifyGet _).atomic.map _
  | importResponse now bytes => exact (Edit.atomic_importResponse now bytes).map _
  | upgrade key bytes => exact (Edit.atomic_upgrade key bytes).map _
  | stamp clock transport urls => exact (total_modifyGet _).atomic
  | update transport => exact (total_modifyGet _).atomic
  | keyOf attestation =>
    exact (steady_get.bind fun _ => (steady_lift _).bind fun _ => steady_pure _).atomic
  | lookUp key =>
    exact (steady_get.bind fun _ => (steady_lift _).bind fun _ => steady_pure _).atomic

/-! ## Histories -/

/-- What came of an action, and the timestamp that it leaves. -/
def step (timestamp : Timestamp) (action : Action) : Except Error Result × Timestamp :=
  action.edit.apply timestamp

/-- What comes of an action that succeeds. -/
def perform (timestamp : Timestamp) (action : Action) : Except Error (Result × Timestamp) :=
  action.edit.attempt timestamp

section Perform

variable (timestamp : Timestamp)

@[simp] theorem perform_setNonce (nonce : Nonce) :
    timestamp.perform (.setNonce nonce) = .ok (.nothing, timestamp.setNonce nonce) := rfl

@[simp] theorem perform_setSource (source : String) :
    timestamp.perform (.setSource source) = .ok (.nothing, timestamp.setSource source) := rfl

@[simp] theorem perform_setIdentity (identity : Identity) :
    timestamp.perform (.setIdentity identity) =
      (.nothing, ·) <$> timestamp.setIdentity identity := by
  rw [perform, Action.edit, attempt_map, setIdentity, Functor.map_map]
  rfl

@[simp] theorem perform_setLocation (location : Location) :
    timestamp.perform (.setLocation location) =
      (.nothing, ·) <$> timestamp.setLocation location := by
  rw [perform, Action.edit, attempt_map, setLocation, Functor.map_map]
  rfl

@[simp] theorem perform_addAttestation (now : UInt32) (attestation : Attestation) :
    timestamp.perform (.addAttestation now attestation) =
      .ok (Prod.map .added id (timestamp.addAttestation now attestation)) := rfl

@[simp] theorem perform_importResponse (now : UInt32) (bytes : Bytes) :
    timestamp.perform (.importResponse now bytes) =
      Prod.map .added id <$> timestamp.importResponse now bytes := by
  rw [perform, Action.edit, attempt_map, importResponse]

@[simp] theorem perform_upgrade (key : CalendarKey) (bytes : Bytes) :
    timestamp.perform (.upgrade key bytes) = (.nothing, ·) <$> timestamp.upgrade key bytes := by
  rw [perform, Action.edit, attempt_map, upgrade, Functor.map_map]
  rfl

@[simp] theorem perform_stamp (clock : Clock) (transport : Transport) (urls : List String) :
    timestamp.perform (.stamp clock transport urls) =
      .ok (.stamped (timestamp.stamp clock transport 0 urls).count
          (timestamp.stamp clock transport 0 urls).requests
          (timestamp.stamp clock transport 0 urls).log,
        (timestamp.stamp clock transport 0 urls).timestamp) := rfl

@[simp] theorem perform_update (transport : Transport) :
    timestamp.perform (.update transport) =
      .ok (.updated (timestamp.update transport 0).upgraded
          (timestamp.update transport 0).requests (timestamp.update transport 0).log,
        (timestamp.update transport 0).timestamp) := rfl

@[simp] theorem perform_keyOf (attestation : Attestation) :
    timestamp.perform (.keyOf attestation) =
      (fun key => (.key key, timestamp)) <$> timestamp.calendarKey attestation := by
  rw [perform, Action.edit, attempt_get_bind, attempt_lift_bind]
  rfl

@[simp] theorem perform_lookUp (key : CalendarKey) :
    timestamp.perform (.lookUp key) =
      (fun attestation => (.attestation attestation, timestamp)) <$>
        timestamp.attestationOfKey key := by
  rw [perform, Action.edit, attempt_get_bind, attempt_lift_bind]
  rfl

end Perform

theorem step_of_ok {timestamp next : Timestamp} {action : Action} {result : Result}
    (h : timestamp.perform action = .ok (result, next)) :
    timestamp.step action = (.ok result, next) :=
  attempt_eq_ok.mp h

/-- An action that fails leaves the timestamp as it was. -/
theorem step_of_error {timestamp : Timestamp} {action : Action} {e : Error}
    (h : timestamp.perform action = .error e) : timestamp.step action = (.error e, timestamp) :=
  action.atomic_edit.apply_of_error h

theorem step_upgrade_of_ok {timestamp next : Timestamp} {key : CalendarKey} {bytes : Bytes}
    (h : timestamp.upgrade key bytes = .ok next) :
    timestamp.step (.upgrade key bytes) = (.ok .nothing, next) :=
  step_of_ok (by rw [perform_upgrade, h]; rfl)

theorem step_upgrade_of_error {timestamp : Timestamp} {key : CalendarKey} {bytes : Bytes}
    {e : Error} (h : timestamp.upgrade key bytes = .error e) :
    timestamp.step (.upgrade key bytes) = (.error e, timestamp) :=
  step_of_error (by rw [perform_upgrade, h]; rfl)

/-- The timestamp after a sequence of actions. -/
def after (timestamp : Timestamp) (actions : List Action) : Timestamp :=
  actions.foldl (fun timestamp action => (timestamp.step action).2) timestamp

/-- What came of each of a sequence of actions. -/
def results (timestamp : Timestamp) : List Action → List (Except Error Result)
  | [] => []
  | action :: actions =>
    (timestamp.step action).1 :: results (timestamp.step action).2 actions

@[simp] theorem after_nil (timestamp : Timestamp) : timestamp.after [] = timestamp := rfl

@[simp] theorem after_cons (timestamp : Timestamp) (action : Action) (actions : List Action) :
    timestamp.after (action :: actions) = (timestamp.step action).2.after actions := rfl

@[simp] theorem after_append (timestamp : Timestamp) (first second : List Action) :
    timestamp.after (first ++ second) = (timestamp.after first).after second := by
  simp [after]

end CalendarStamp.Timestamp
