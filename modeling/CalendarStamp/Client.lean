import CalendarStamp.Request
import CalendarStamp.Timestamp

/-!
# Talking to calendars

All requests of a batch are sent before any answer is looked at.  Then the
answers are applied to the timestamp one at a time, in the order of the
requests.  A calendar that fails or sends bad data is noted in the log and
passed over: the batch goes on with the timestamp that the failure has left.

The clock is looked at whenever an attestation is attached, so the attestations
of one batch may be marked with different times.

Main results:

- Theorems `atomic_importReply` and `atomic_upgradeReply`: a reply that cannot be
  made use of leaves the timestamp as it was.
-/

namespace CalendarStamp

/-! ## Answers -/

/-- Why nothing could be done with a calendar. -/
inductive ClientError
  /-- The connection failed. -/
  | network (text : String)
  /-- The calendar did not answer in time. -/
  | timeout
  /-- The calendar answered a request to this address with nothing. -/
  | emptyResponse (url : String)
  /-- The answer does not fit the timestamp. -/
  | chain (cause : Error)
deriving DecidableEq

/-- The sentence that reports the error. -/
def ClientError.message : ClientError → String
  | network text => "Network error: " ++ text
  | timeout => "Timeout"
  | emptyResponse url => "Empty response from " ++ url
  | chain cause => cause.message

/-- What comes back for a request. -/
abbrev Reply := Except ClientError Bytes

/-- The world outside: the reply to the n-th request of a session. -/
abbrev Transport := Nat → Request → Reply

/-- A transport that gives listed replies in order and times out after them. -/
def Transport.ofList (replies : List Reply) : Transport :=
  fun index _ => replies.getD index (.error .timeout)

/-- A reply that counts: one with content. -/
def Reply.nonempty (request : Request) (reply : Reply) : Reply := do
  let body ← reply
  if body = [] then throw (.emptyResponse request.url) else return body

/-- Send requests, the first of them as number `start` of the session, and
collect what comes back. -/
def Transport.exchange (transport : Transport) (start : Nat) (requests : List Request) :
    List Reply :=
  requests.mapIdx fun index request =>
    Reply.nonempty request (transport (start + index) request)

/-! ## The clock -/

/-- What a clock shows, at one look at it after the other. -/
structure Clock where
  reading : Nat → UInt32

namespace Clock

/-- A clock that stands still. -/
def still (time : UInt32) : Clock := ⟨fun _ => time⟩

instance : Coe UInt32 Clock := ⟨still⟩

/-- What the clock shows at the next look. -/
def now (clock : Clock) : UInt32 := clock.reading 0

/-- The clock after some looks at it. -/
def after (clock : Clock) (looks : Nat) : Clock := ⟨fun index => clock.reading (index + looks)⟩

end Clock

/-! ## The log -/

/-- How important an event is. -/
inductive Level
  | debug
  | info
  | warn
deriving DecidableEq

/-- The name of a level. -/
def Level.name : Level → String
  | debug => "DEBUG"
  | info => "INFO"
  | warn => "WARN"

/-- What is worth noting about a session. -/
inductive Event
  | sent (request : Request)
  | submitted (digest : Digest) (url : String)
  | alreadyAttested (url : String)
  | notStamped (url : String) (cause : ClientError)
  | noKey (url : String) (cause : Error)
  | upgraded (url : String)
  | notUpgraded (url : String) (cause : ClientError)
deriving DecidableEq

namespace Event

/-- How important an event is. -/
def level : Event → Level
  | sent _ => .debug
  | submitted _ _ => .info
  | alreadyAttested _ => .debug
  | notStamped _ _ => .warn
  | noKey _ _ => .warn
  | upgraded _ => .info
  | notUpgraded _ _ => .warn

/-- The line that notes an event. -/
def text : Event → String
  | sent request => request.method.title ++ " " ++ request.url
  | submitted digest url => "Digest " ++ digest.toHex ++ " submitted to " ++ url
  | alreadyAttested url => url ++ " already attests this timestamp"
  | notStamped url cause => "Failed to stamp with " ++ url ++ ": " ++ cause.message
  | noKey url cause => "Cannot derive key for " ++ url ++ ": " ++ cause.message
  | upgraded url => "Attestation from " ++ url ++ " upgraded"
  | notUpgraded url cause => "Attestation from " ++ url ++ " not upgraded: " ++ cause.message

end Event

/-! ## Stamping -/

/-- What comes of stamping: the timestamp, how many attestations were added,
what was sent and what happened. -/
structure Stamping where
  timestamp : Timestamp
  count : Nat
  requests : List Request
  log : List Event

namespace Timestamp

open Change

/-- The requests that submit a timestamp's digest to calendars. -/
def stampRequests (timestamp : Timestamp) (urls : List String) : List Request :=
  urls.map fun url => .submit url timestamp.digestHash

/-- Take in one calendar's reply to a digest. -/
def importReply (now : UInt32) (reply : Reply) : Change Timestamp ClientError Bool := do
  let bytes ← reply
  (Edit.importResponse now bytes).mapError .chain

theorem apply_importReply_ok (now : UInt32) (bytes : Bytes) (timestamp : Timestamp) :
    (importReply now (.ok bytes)).apply timestamp =
      (((Edit.importResponse now bytes).apply timestamp).1.mapError .chain,
        ((Edit.importResponse now bytes).apply timestamp).2) := rfl

theorem apply_importReply_of_ok {timestamp next : Timestamp} {now : UInt32} {bytes : Bytes}
    {added : Bool} (h : timestamp.importResponse now bytes = .ok (added, next)) :
    (importReply now (.ok bytes)).apply timestamp = (.ok added, next) := by
  rw [apply_importReply_ok, attempt_eq_ok.mp h]
  rfl

/-- A reply that cannot be taken in leaves the timestamp as it was. -/
theorem atomic_importReply (now : UInt32) (reply : Reply) : Atomic id (importReply now reply) :=
  (steady_lift _).bind_atomic fun bytes => (Edit.atomic_importResponse now bytes).mapError _

theorem apply_importReply_of_error {timestamp : Timestamp} {now : UInt32} {bytes : Bytes}
    {e : Error} (h : timestamp.importResponse now bytes = .error e) :
    (importReply now (.ok bytes)).apply timestamp = (.error (.chain e), timestamp) := by
  have houtcome : ((importReply now (.ok bytes)).apply timestamp).1 = .error (.chain e) := by
    rw [apply_importReply_ok, attempt_eq_error.mp h]
    rfl
  exact Prod.ext houtcome (atomic_importReply now (.ok bytes) timestamp _ houtcome)

/-- The event that a taken-in reply is noted as. -/
def stampEvent (digest : Digest) (url : String) : Except ClientError Bool → Event
  | .ok true => .submitted digest url
  | .ok false => .alreadyAttested url
  | .error cause => .notStamped url cause

/-- How many attestations a taken-in reply has added. -/
def countAdded : Except ClientError Bool → Nat
  | .ok true => 1
  | _ => 0

/-- Apply replies in order, each with the address of its calendar. -/
def applyStamps (clock : Clock) (digest : Digest) (timestamp : Timestamp) :
    List (String × Reply) → Timestamp × Nat × List Event
  | [] => (timestamp, 0, [])
  | (url, reply) :: rest =>
    let (result, next) := (importReply clock.now reply).apply timestamp
    let (final, count, log) := applyStamps (clock.after (countAdded result)) digest next rest
    (final, count + countAdded result, stampEvent digest url result :: log)

/-- The first reply is applied, and then the others to what it has left. -/
theorem applyStamps_cons {clock : Clock} {timestamp next : Timestamp} {reply : Reply}
    {result : Except ClientError Bool}
    (h : (importReply clock.now reply).apply timestamp = (result, next)) (digest : Digest)
    (url : String) (rest : List (String × Reply)) :
    applyStamps clock digest timestamp ((url, reply) :: rest) =
      ((applyStamps (clock.after (countAdded result)) digest next rest).1,
        (applyStamps (clock.after (countAdded result)) digest next rest).2.1 + countAdded result,
        stampEvent digest url result ::
          (applyStamps (clock.after (countAdded result)) digest next rest).2.2) := by
  rw [applyStamps, h]

/-- Submit a timestamp's digest to calendars and attach what they answer.
`start` counts the requests that the session has sent before. -/
def stamp (timestamp : Timestamp) (clock : Clock) (transport : Transport) (start : Nat)
    (urls : List String) : Stamping :=
  let requests := timestamp.stampRequests urls
  let replies := transport.exchange start requests
  let (final, count, log) :=
    applyStamps clock timestamp.digestHash timestamp (urls.zip replies)
  { timestamp := final, count, requests, log := requests.map .sent ++ log }

end Timestamp

/-! ## Updating -/

/-- What comes of an update: the timestamp, whether any attestation was
completed, what was sent and what happened. -/
structure Updating where
  timestamp : Timestamp
  upgraded : Bool
  requests : List Request
  log : List Event

namespace Timestamp

open Change

/-- The pending attestations' calendars with their lookup keys, for those whose
key can be derived. -/
def pendingKeys (timestamp : Timestamp) : List (String × CalendarKey) :=
  timestamp.pending.filterMap fun attestation =>
    match timestamp.calendarKey attestation with
    | .ok key => some (attestation.calendarUrl, key)
    | .error _ => none

/-- The events that note pending attestations whose key cannot be derived. -/
def keyEvents (timestamp : Timestamp) : List Event :=
  timestamp.pending.filterMap fun attestation =>
    match timestamp.calendarKey attestation with
    | .ok _ => none
    | .error cause => some (.noKey attestation.calendarUrl cause)

/-- Complete an attestation from one calendar's reply. -/
def upgradeReply (key : CalendarKey) (reply : Reply) : Change Timestamp ClientError Unit := do
  let bytes ← reply
  (Edit.upgrade key bytes).mapError .chain

theorem apply_upgradeReply_ok (key : CalendarKey) (bytes : Bytes) (timestamp : Timestamp) :
    (upgradeReply key (.ok bytes)).apply timestamp =
      (((Edit.upgrade key bytes).apply timestamp).1.mapError .chain,
        ((Edit.upgrade key bytes).apply timestamp).2) := rfl

theorem apply_upgradeReply_of_ok {timestamp next : Timestamp} {key : CalendarKey} {bytes : Bytes}
    (h : timestamp.upgrade key bytes = .ok next) :
    (upgradeReply key (.ok bytes)).apply timestamp = (.ok (), next) := by
  have hattempt : (Edit.upgrade key bytes).attempt timestamp = .ok ((), next) := by
    rw [attempt_upgrade, h]
    rfl
  rw [apply_upgradeReply_ok, attempt_eq_ok.mp hattempt]
  rfl

/-- A reply that completes nothing leaves the timestamp as it was. -/
theorem atomic_upgradeReply (key : CalendarKey) (reply : Reply) :
    Atomic id (upgradeReply key reply) :=
  (steady_lift _).bind_atomic fun bytes => (Edit.atomic_upgrade key bytes).mapError _

theorem apply_upgradeReply_of_error {timestamp : Timestamp} {key : CalendarKey} {bytes : Bytes}
    {e : Error} (h : timestamp.upgrade key bytes = .error e) :
    (upgradeReply key (.ok bytes)).apply timestamp = (.error (.chain e), timestamp) := by
  have hattempt : (Edit.upgrade key bytes).attempt timestamp = .error e := by
    rw [attempt_upgrade, h]
    rfl
  have houtcome : ((upgradeReply key (.ok bytes)).apply timestamp).1 = .error (.chain e) := by
    rw [apply_upgradeReply_ok, attempt_eq_error.mp hattempt]
    rfl
  exact Prod.ext houtcome (atomic_upgradeReply key (.ok bytes) timestamp _ houtcome)

/-- The event that a reply to a lookup is noted as. -/
def upgradeEvent (url : String) : Except ClientError Unit → Event
  | .ok () => .upgraded url
  | .error cause => .notUpgraded url cause

/-- Apply replies in order, each with the address of its calendar and the key
that was asked for. -/
def applyUpgrades (timestamp : Timestamp) :
    List ((String × CalendarKey) × Reply) → Timestamp × Bool × List Event
  | [] => (timestamp, false, [])
  | ((url, key), reply) :: rest =>
    let (result, next) := (upgradeReply key reply).apply timestamp
    let (final, upgraded, log) := applyUpgrades next rest
    (final, result.isOk || upgraded, upgradeEvent url result :: log)

/-- The first reply is applied, and then the others to what it has left. -/
theorem applyUpgrades_cons {timestamp next : Timestamp} {key : CalendarKey} {reply : Reply}
    {result : Except ClientError Unit}
    (h : (upgradeReply key reply).apply timestamp = (result, next)) (url : String)
    (rest : List ((String × CalendarKey) × Reply)) :
    applyUpgrades timestamp (((url, key), reply) :: rest) =
      ((applyUpgrades next rest).1, result.isOk || (applyUpgrades next rest).2.1,
        upgradeEvent url result :: (applyUpgrades next rest).2.2) := by
  rw [applyUpgrades, h]

/-- Ask the calendar of each pending attestation for the rest of its chain.
`start` counts the requests that the session has sent before. -/
def update (timestamp : Timestamp) (transport : Transport) (start : Nat) : Updating :=
  let keys := timestamp.pendingKeys
  let requests := keys.map fun (url, key) => .lookup url key
  let replies := transport.exchange start requests
  let (final, upgraded, log) := applyUpgrades timestamp (keys.zip replies)
  { timestamp := final
    upgraded
    requests
    log := timestamp.keyEvents ++ requests.map .sent ++ log }

end Timestamp

end CalendarStamp
