import CalendarStamp.Timestamp.Action

/-!
# What an action can do to a timestamp

However many actions there are, a timestamp moves in few ways: its context is
set, an attestation is attached at the end, or a pending attestation is run
again with a longer chain.  An action that talks to several calendars is a
sequence of simpler ones, so it moves a timestamp in no other way.

Main results:

- Theorems `importResponse_eq_ok` and `upgrade_eq_ok`: the circumstances in which
  an answer is taken in.
- Theorem `positionOfKey?_eq_some_iff`: which attestation a key is found at.
- Theorem `upgrade_eq_error`: those in which an upgrade fails.
- Theorem `move_step`: what a single action can do.
- Theorems `timestamp_stamp` and `timestamp_update`: stamping and updating are
  sequences of single actions.
- Theorem `after_singles`: so is every history.
- Theorem `after_induction`: what every move keeps, every history keeps.
-/

namespace CalendarStamp.Timestamp

open Outcome

/-! ## Context -/

/-- All that a timestamp holds besides its attestations. -/
def context (timestamp : Timestamp) : Record :=
  { timestamp.toRecord with attestations := [] }

@[simp] theorem context_withAttestations (timestamp : Timestamp) (attestations : List Attestation) :
    (timestamp.withAttestations attestations).context = timestamp.context := rfl

/-- The digest depends on the context alone. -/
theorem digestHash_congr {a b : Timestamp} (h : a.context = b.context) :
    a.digestHash = b.digestHash := by
  have hpreimage : a.preimage = b.preimage := by
    simp only [context, Record.mk.injEq, and_true] at h
    rcases h with ⟨hhash, hnonce, _, hsource, hidentity, hlocation⟩
    simp only [preimage, hhash, hnonce, hsource, hidentity, hlocation]
  exact Digest.ext (congrArg Hash.doubleSha256 hpreimage)

/-- A timestamp is its context and its attestations. -/
theorem eq_of_context {a b : Timestamp} (context : a.context = b.context)
    (attestations : a.attestations = b.attestations) : a = b := by
  rcases a with ⟨⟨hash, nonce, created, source, identity, location, held⟩, hash_ne_nil⟩
  rcases b with ⟨⟨hash', nonce', created', source', identity', location', held'⟩, hash_ne_nil'⟩
  simp_all [Timestamp.context]

/-- A timestamp is stamped when it holds an attestation. -/
theorem isStamped_eq_true {timestamp : Timestamp} :
    timestamp.isStamped = true ↔ timestamp.attestations ≠ [] := by
  simp [isStamped]

/-! ## Attaching an attestation -/

/-- The timestamp with one more attestation, marked with the time. -/
def attach (timestamp : Timestamp) (now : UInt32) (attestation : Attestation) : Timestamp :=
  timestamp.withAttestations (timestamp.attestations ++ [{ attestation with submitted := now }])

@[simp] theorem attestations_attach (timestamp : Timestamp) (now : UInt32)
    (attestation : Attestation) :
    (timestamp.attach now attestation).attestations =
      timestamp.attestations ++ [{ attestation with submitted := now }] := rfl

@[simp] theorem context_attach (timestamp : Timestamp) (now : UInt32) (attestation : Attestation) :
    (timestamp.attach now attestation).context = timestamp.context := rfl

/-- Whether no attestation held has the address of a new one. -/
def IsNew (timestamp : Timestamp) (attestation : Attestation) : Prop :=
  ∀ held ∈ timestamp.attestations, held.calendarUrl ≠ attestation.calendarUrl

/-- An attestation is attached when its address is new, and else nothing is done. -/
theorem addAttestation_cases (timestamp : Timestamp) (now : UInt32) (attestation : Attestation) :
    timestamp.IsNew attestation ∧
        timestamp.addAttestation now attestation = (true, timestamp.attach now attestation) ∨
      ¬timestamp.IsNew attestation ∧
        timestamp.addAttestation now attestation = (false, timestamp) := by
  unfold addAttestation IsNew
  split <;> rename_i hknown
  · right
    simpa using hknown
  · left
    simp only [List.any_eq_true, decide_eq_true_eq, not_exists, not_and] at hknown
    exact ⟨hknown, rfl⟩

/-- An answer to a new digest is taken in when it can be read and run. -/
theorem importResponse_eq_ok {timestamp : Timestamp} {now : UInt32} {bytes : Bytes}
    {outcome : Bool × Timestamp} :
    timestamp.importResponse now bytes = .ok outcome ↔
      ∃ operations attestation, Chain.parse bytes = .ok operations ∧
        (Attestation.ofOperations operations).fold timestamp.digestHash.bytes = .ok attestation ∧
        timestamp.addAttestation now attestation = outcome := by
  rw [importResponse_eq]
  simp [bind_eq_ok]

/-! ## Finding an attestation by its key -/

/-- An attestation is looked up under the key that its chain leads to. -/
theorem hasKey_iff {timestamp : Timestamp} {key : CalendarKey} {attestation : Attestation} :
    hasKey timestamp.digestHash key attestation = true ↔
      timestamp.calendarKey attestation = .ok key := by
  unfold hasKey calendarKey
  cases deriveKey timestamp.digestHash.bytes attestation.operations <;> simp

/-- Whether an attestation is the first one that is looked up under a key. -/
structure IsFirstUnder (timestamp : Timestamp) (key : CalendarKey) (index : Nat)
    (attestation : Attestation) : Prop where
  held : timestamp.attestations[index]? = some attestation
  leads : timestamp.calendarKey attestation = .ok key
  earlier : ∀ {position : Nat} {other : Attestation}, position < index →
    timestamp.attestations[position]? = some other → timestamp.calendarKey other ≠ .ok key

/-- A key is found at the first attestation that is looked up under it. -/
theorem positionOfKey?_eq_some_iff {timestamp : Timestamp} {key : CalendarKey} {index : Nat} :
    timestamp.positionOfKey? key = some index ↔
      ∃ attestation, timestamp.IsFirstUnder key index attestation := by
  rw [positionOfKey?, List.findIdx?_eq_some_iff_getElem]
  constructor
  · rintro ⟨hlt, hkey, hearlier⟩
    refine ⟨timestamp.attestations[index], List.getElem?_eq_getElem hlt, hasKey_iff.mp hkey, ?_⟩
    intro position other hposition hother hleads
    rcases List.getElem?_eq_some_iff.mp hother with ⟨_, rfl⟩
    exact hearlier position hposition (hasKey_iff.mpr hleads)
  · rintro ⟨attestation, hheld, hleads, hearlier⟩
    rcases List.getElem?_eq_some_iff.mp hheld with ⟨hlt, rfl⟩
    refine ⟨hlt, hasKey_iff.mpr hleads, fun position hposition hkey => ?_⟩
    have hother := List.getElem?_eq_getElem (Nat.lt_trans hposition hlt)
    exact hearlier hposition hother (hasKey_iff.mp hkey)

/-- A key is not found when no attestation is looked up under it. -/
theorem positionOfKey?_eq_none_iff {timestamp : Timestamp} {key : CalendarKey} :
    timestamp.positionOfKey? key = none ↔
      ∀ attestation ∈ timestamp.attestations, timestamp.calendarKey attestation ≠ .ok key := by
  rw [positionOfKey?, List.findIdx?_eq_none_iff]
  refine forall_congr' fun attestation => imp_congr_right fun _ => ?_
  rw [← Bool.not_eq_true, hasKey_iff]

/-! ## Upgrading an attestation -/

/-- The circumstances in which an upgrade succeeds: the first attestation under
the key is pending, the continuation can be read, and the longer chain can be
run. -/
structure Upgrading (timestamp : Timestamp) (key : CalendarKey) (bytes : Bytes) where
  index : Nat
  current : Attestation
  continuation : List Operation
  result : Attestation
  found : timestamp.positionOfKey? key = some index
  held : timestamp.attestations[index]? = some current
  pending : current.isPending = true
  parsed : Chain.parse bytes = .ok continuation
  ran : extended timestamp.digestHash current continuation = .ok result

/-- The timestamp after an upgrade. -/
def Upgrading.next {timestamp : Timestamp} {key : CalendarKey} {bytes : Bytes}
    (upgrading : timestamp.Upgrading key bytes) : Timestamp :=
  timestamp.withAttestations (timestamp.attestations.set upgrading.index upgrading.result)

/-- The attestation that an upgrade has run again stands where it stood. -/
theorem Upgrading.getElem?_next {timestamp : Timestamp} {key : CalendarKey} {bytes : Bytes}
    (upgrading : timestamp.Upgrading key bytes) :
    upgrading.next.attestations[upgrading.index]? = some upgrading.result :=
  List.getElem?_set_self (List.getElem?_eq_some_iff.mp upgrading.held).1

/-- The position of a key is that of an attestation. -/
theorem getElem?_of_positionOfKey? {timestamp : Timestamp} {key : CalendarKey} {index : Nat}
    (h : timestamp.positionOfKey? key = some index) :
    timestamp.attestations[index]? = some (timestamp.attestations.getD index {}) := by
  rcases List.findIdx?_eq_some_iff_getElem.mp h with ⟨hlt, _⟩
  simp [List.getD, hlt]

/-- An upgrade succeeds in the circumstances that `Upgrading` lists. -/
theorem upgrade_eq_ok {timestamp next : Timestamp} {key : CalendarKey} {bytes : Bytes} :
    timestamp.upgrade key bytes = .ok next ↔
      ∃ upgrading : timestamp.Upgrading key bytes, upgrading.next = next := by
  constructor
  · intro h
    cases hfound : timestamp.positionOfKey? key with
    | none =>
      rw [upgrade_of_missing hfound] at h
      cases h
    | some index =>
      have hheld := getElem?_of_positionOfKey? hfound
      cases hpending : (timestamp.attestations.getD index {}).isPending with
      | false =>
        rw [upgrade_of_final hfound hheld hpending] at h
        cases h
      | true =>
        rw [upgrade_of_pending hfound hheld hpending] at h
        rcases bind_eq_ok.mp h with ⟨continuation, hparsed, h⟩
        rcases bind_eq_ok.mp h with ⟨result, hran, h⟩
        cases h
        exact ⟨⟨index, _, continuation, result, hfound, hheld, hpending, hparsed, hran⟩, rfl⟩
  · rintro ⟨⟨index, current, continuation, result, hfound, hheld, hpending, hparsed, hran⟩, rfl⟩
    rw [upgrade_of_pending hfound hheld hpending, hparsed, ok_bind, hran]
    rfl

/-- The circumstances in which an upgrade fails, in the order in which they are
looked at, and the error in each of them. -/
inductive Refusal (timestamp : Timestamp) (key : CalendarKey) (bytes : Bytes) : Error → Prop
  | unfound (missing : timestamp.positionOfKey? key = none) : Refusal timestamp key bytes .notFound
  | final {index : Nat} {current : Attestation}
      (found : timestamp.positionOfKey? key = some index)
      (held : timestamp.attestations[index]? = some current)
      (settled : current.isPending = false) : Refusal timestamp key bytes .alreadyUpgraded
  | unread {index : Nat} {current : Attestation} {e : Error}
      (found : timestamp.positionOfKey? key = some index)
      (held : timestamp.attestations[index]? = some current)
      (pending : current.isPending = true)
      (unread : Chain.parse bytes = .error e) : Refusal timestamp key bytes e
  | unrun {index : Nat} {current : Attestation} {continuation : List Operation} {e : Error}
      (found : timestamp.positionOfKey? key = some index)
      (held : timestamp.attestations[index]? = some current)
      (pending : current.isPending = true)
      (parsed : Chain.parse bytes = .ok continuation)
      (unrun : extended timestamp.digestHash current continuation = .error e) :
      Refusal timestamp key bytes e

/-- An upgrade fails in the circumstances that `Refusal` lists. -/
theorem upgrade_eq_error {timestamp : Timestamp} {key : CalendarKey} {bytes : Bytes} {e : Error} :
    timestamp.upgrade key bytes = .error e ↔ timestamp.Refusal key bytes e := by
  constructor
  · intro h
    cases hfound : timestamp.positionOfKey? key with
    | none =>
      rw [upgrade_of_missing hfound] at h
      cases h
      exact .unfound hfound
    | some index =>
      have hheld := getElem?_of_positionOfKey? hfound
      cases hpending : (timestamp.attestations.getD index {}).isPending with
      | false =>
        rw [upgrade_of_final hfound hheld hpending] at h
        cases h
        exact .final hfound hheld hpending
      | true =>
        rw [upgrade_of_pending hfound hheld hpending] at h
        rcases bind_eq_error.mp h with hunread | ⟨continuation, hparsed, h⟩
        · exact .unread hfound hheld hpending hunread
        · rcases bind_eq_error.mp h with hunrun | ⟨result, hran, h⟩
          · exact .unrun hfound hheld hpending hparsed hunrun
          · cases h
  · intro refusal
    cases refusal with
    | unfound missing => exact upgrade_of_missing missing bytes
    | final found held settled => exact upgrade_of_final found held settled bytes
    | unread found held pending unread =>
      rw [upgrade_of_pending found held pending, unread]
      rfl
    | unrun found held pending parsed unrun =>
      rw [upgrade_of_pending found held pending, parsed, ok_bind, unrun]
      rfl

/-! ## Moves -/

/-- Whether an action sets a part of the context. -/
def Action.setsContext : Action → Bool
  | .setNonce _ | .setSource _ | .setIdentity _ | .setLocation _ => true
  | _ => false

/-- Whether an action takes in what calendars answer. -/
def Action.isAnswer : Action → Bool
  | .importResponse _ _ | .upgrade _ _ | .stamp _ _ _ | .update _ => true
  | _ => false

/-- Whether an action talks to several calendars in a row. -/
def Action.isBatch : Action → Bool
  | .stamp _ _ _ | .update _ => true
  | _ => false

/-- What a single action can do to a timestamp. -/
inductive Move (timestamp : Timestamp) : Action → Timestamp → Prop
  /-- Nothing changes, be it that the action fails, only looks or finds nothing new. -/
  | idle (action : Action) : Move timestamp action timestamp
  /-- The context is set, within what is fixed. -/
  | setContext {action : Action} {next : Timestamp} (sets : action.setsContext = true)
      (attestations : next.attestations = timestamp.attestations)
      (hash : next.hash = timestamp.hash) (created : next.created = timestamp.created)
      (fixed : timestamp.isStamped = true →
        next.identity = timestamp.identity ∧ next.location = timestamp.location) :
      Move timestamp action next
  /-- An attestation is attached as it is given. -/
  | attach (now : UInt32) {attestation : Attestation} (new : timestamp.IsNew attestation) :
      Move timestamp (.addAttestation now attestation) (timestamp.attach now attestation)
  /-- An attestation is attached that comes from running an answer. -/
  | takeIn (now : UInt32) {bytes : Bytes} {operations : List Operation} {attestation : Attestation}
      (parsed : Chain.parse bytes = .ok operations)
      (ran : (Attestation.ofOperations operations).fold timestamp.digestHash.bytes =
        .ok attestation)
      (new : timestamp.IsNew attestation) :
      Move timestamp (.importResponse now bytes) (timestamp.attach now attestation)
  /-- A pending attestation is run again with a longer chain. -/
  | upgrade {key : CalendarKey} {bytes : Bytes} (upgrading : timestamp.Upgrading key bytes) :
      Move timestamp (.upgrade key bytes) upgrading.next

/-- The timestamp after an action is what the action makes of it, or else what it was. -/
theorem step_snd (timestamp : Timestamp) (action : Action) :
    (timestamp.step action).2 =
      match timestamp.perform action with
      | .ok (_, next) => next
      | .error _ => timestamp := by
  cases hperform : timestamp.perform action with
  | ok outcome => rw [step_of_ok hperform]
  | error e => rw [step_of_error hperform]

/-- What a single action can do. -/
theorem move_step (timestamp : Timestamp) {action : Action} (single : action.isBatch = false) :
    Move timestamp action (timestamp.step action).2 := by
  rw [step_snd]
  cases action with
  | setNonce nonce => exact .setContext rfl rfl rfl rfl fun _ => ⟨rfl, rfl⟩
  | setSource source => exact .setContext rfl rfl rfl rfl fun _ => ⟨rfl, rfl⟩
  | setIdentity identity =>
    rw [perform_setIdentity]
    cases hstamped : timestamp.isStamped with
    | true =>
      rw [setIdentity_of_stamped timestamp hstamped]
      exact .idle _
    | false =>
      rw [setIdentity_of_unstamped timestamp hstamped]
      exact .setContext rfl rfl rfl rfl fun h => absurd h (by simp [hstamped])
  | setLocation location =>
    rw [perform_setLocation]
    cases hstamped : timestamp.isStamped with
    | true =>
      rw [setLocation_of_stamped timestamp hstamped]
      exact .idle _
    | false =>
      rw [setLocation_of_unstamped timestamp hstamped]
      exact .setContext rfl rfl rfl rfl fun h => absurd h (by simp [hstamped])
  | addAttestation now attestation =>
    rw [perform_addAttestation]
    rcases timestamp.addAttestation_cases now attestation with ⟨hnew, h⟩ | ⟨_, h⟩
    · rw [h]
      exact .attach now hnew
    · rw [h]
      exact .idle _
  | importResponse now bytes =>
    rw [perform_importResponse]
    cases himport : timestamp.importResponse now bytes with
    | error e => exact .idle _
    | ok outcome =>
      rcases importResponse_eq_ok.mp himport with ⟨operations, attestation, hparsed, hran, rfl⟩
      rcases timestamp.addAttestation_cases now attestation with ⟨hnew, h⟩ | ⟨_, h⟩
      · rw [h]
        exact .takeIn now hparsed hran hnew
      · rw [h]
        exact .idle _
  | upgrade key bytes =>
    rw [perform_upgrade]
    cases hupgrade : timestamp.upgrade key bytes with
    | error e => exact .idle _
    | ok next =>
      rcases upgrade_eq_ok.mp hupgrade with ⟨upgrading, rfl⟩
      exact .upgrade upgrading
  | keyOf attestation =>
    rw [perform_keyOf]
    cases timestamp.calendarKey attestation <;> exact .idle _
  | lookUp key =>
    rw [perform_lookUp]
    cases timestamp.attestationOfKey key <;> exact .idle _
  | stamp clock transport urls => cases single
  | update transport => cases single

/-! ## Batches as sequences -/

/-- The actions that take in the replies to a digest, those that came.  The clock
goes on with each attestation that is added. -/
def takingIn (clock : Clock) (timestamp : Timestamp) : List (String × Reply) → List Action
  | [] => []
  | (_, reply) :: rest =>
    let taken := (importReply clock.now reply).apply timestamp
    (reply.toOption.map (.importResponse clock.now)).toList ++
      takingIn (clock.after (countAdded taken.1)) taken.2 rest

/-- The actions that take in the replies to lookups, those that came. -/
def completing (answers : List ((String × CalendarKey) × Reply)) : List Action :=
  answers.filterMap fun ((_, key), reply) => reply.toOption.map (.upgrade key)

/-- The replies to the digest of a timestamp, each with the address of its calendar. -/
def stampAnswers (timestamp : Timestamp) (transport : Transport) (start : Nat)
    (urls : List String) : List (String × Reply) :=
  urls.zip (transport.exchange start (timestamp.stampRequests urls))

/-- The replies to the lookups of a timestamp, each with what was asked. -/
def updateAnswers (timestamp : Timestamp) (transport : Transport) (start : Nat) :
    List ((String × CalendarKey) × Reply) :=
  timestamp.pendingKeys.zip
    (transport.exchange start (timestamp.pendingKeys.map fun (url, key) => .lookup url key))

/-- A reply to a digest makes of a timestamp what taking it in does, if one came. -/
theorem apply_importReply_snd (timestamp : Timestamp) (now : UInt32) (reply : Reply) :
    ((importReply now reply).apply timestamp).2 =
      timestamp.after (reply.toOption.map (.importResponse now)).toList := by
  cases reply with
  | error cause => rfl
  | ok bytes =>
    have hstep : timestamp.after [.importResponse now bytes] =
        (timestamp.step (.importResponse now bytes)).2 := rfl
    rw [apply_importReply_ok, Except.toOption, Option.map_some, Option.toList_some, hstep, step,
      Action.edit, Change.apply_map]

/-- A reply to a lookup makes of it what the upgrade does, if one came. -/
theorem apply_upgradeReply_snd (timestamp : Timestamp) (key : CalendarKey) (reply : Reply) :
    ((upgradeReply key reply).apply timestamp).2 =
      timestamp.after (reply.toOption.map (.upgrade key)).toList := by
  cases reply with
  | error cause => rfl
  | ok bytes =>
    have hstep : timestamp.after [.upgrade key bytes] =
        (timestamp.step (.upgrade key bytes)).2 := rfl
    rw [apply_upgradeReply_ok, Except.toOption, Option.map_some, Option.toList_some, hstep, step,
      Action.edit, Change.apply_map]

/-- Applying replies to a digest is taking them in one after the other. -/
theorem applyStamps_fst (clock : Clock) (digest : Digest) (timestamp : Timestamp)
    (answers : List (String × Reply)) :
    (applyStamps clock digest timestamp answers).1 =
      timestamp.after (takingIn clock timestamp answers) := by
  induction answers generalizing clock timestamp with
  | nil => rfl
  | cons answer rest ih =>
    rcases answer with ⟨url, reply⟩
    rw [applyStamps_cons rfl, takingIn, after_append, ← apply_importReply_snd]
    exact ih _ _

/-- Applying replies to lookups is taking them in one after the other. -/
theorem applyUpgrades_fst (timestamp : Timestamp)
    (answers : List ((String × CalendarKey) × Reply)) :
    (applyUpgrades timestamp answers).1 = timestamp.after (completing answers) := by
  induction answers generalizing timestamp with
  | nil => rfl
  | cons answer rest ih =>
    rcases answer with ⟨⟨url, key⟩, reply⟩
    have hcons : completing (((url, key), reply) :: rest) =
        (reply.toOption.map (.upgrade key)).toList ++ completing rest := by
      cases reply <;> rfl
    rw [applyUpgrades_cons rfl, hcons, after_append, ← apply_upgradeReply_snd]
    exact ih _

/-- Stamping is taking in the replies one after the other. -/
theorem timestamp_stamp (timestamp : Timestamp) (clock : Clock) (transport : Transport)
    (start : Nat) (urls : List String) :
    (timestamp.stamp clock transport start urls).timestamp =
      timestamp.after (takingIn clock timestamp (timestamp.stampAnswers transport start urls)) :=
  applyStamps_fst clock timestamp.digestHash timestamp _

/-- Updating is taking in the replies one after the other. -/
theorem timestamp_update (timestamp : Timestamp) (transport : Transport) (start : Nat) :
    (timestamp.update transport start).timestamp =
      timestamp.after (completing (timestamp.updateAnswers transport start)) :=
  applyUpgrades_fst timestamp _

/-! ## Histories as sequences of single actions -/

/-- The single actions that an action on a timestamp comes to. -/
def Action.singles (timestamp : Timestamp) : Action → List Action
  | .stamp clock transport urls =>
    takingIn clock timestamp (timestamp.stampAnswers transport 0 urls)
  | .update transport => completing (timestamp.updateAnswers transport 0)
  | action => [action]

/-- The single actions that a history comes to. -/
def singles (timestamp : Timestamp) : List Action → List Action
  | [] => []
  | action :: rest => action.singles timestamp ++ singles (timestamp.step action).2 rest

/-- An action does what its single actions do. -/
theorem step_eq_after_singles (timestamp : Timestamp) (action : Action) :
    (timestamp.step action).2 = timestamp.after (action.singles timestamp) := by
  cases action with
  | stamp clock transport urls => exact timestamp.timestamp_stamp clock transport 0 urls
  | update transport => exact timestamp.timestamp_update transport 0
  | _ => rfl

/-- A history does what its single actions do. -/
theorem after_singles (timestamp : Timestamp) (actions : List Action) :
    timestamp.after (timestamp.singles actions) = timestamp.after actions := by
  induction actions generalizing timestamp with
  | nil => rfl
  | cons action rest ih =>
    rw [singles, after_append, ← step_eq_after_singles, ih, after_cons]

/-- Replies to a digest are taken in as answers to it. -/
theorem mem_takingIn {clock : Clock} {timestamp : Timestamp} {answers : List (String × Reply)}
    {action : Action} (h : action ∈ takingIn clock timestamp answers) :
    ∃ now bytes, action = .importResponse now bytes := by
  induction answers generalizing clock timestamp with
  | nil => cases h
  | cons answer rest ih =>
    rcases List.mem_append.mp h with h | h
    · rcases Option.map_eq_some_iff.mp (Option.mem_toList.mp h) with ⟨bytes, _, rfl⟩
      exact ⟨_, bytes, rfl⟩
    · exact ih h

/-- The single actions of an action are the action itself or answers. -/
theorem Action.mem_singles {timestamp : Timestamp} {action single : Action}
    (h : single ∈ action.singles timestamp) :
    single.isBatch = false ∧ (single = action ∨ single.isAnswer = true) := by
  cases action with
  | stamp clock transport urls =>
    rcases mem_takingIn h with ⟨now, bytes, rfl⟩
    exact ⟨rfl, .inr rfl⟩
  | update transport =>
    rcases List.mem_filterMap.mp h with ⟨answer, _, h⟩
    rcases Option.map_eq_some_iff.mp h with ⟨bytes, _, rfl⟩
    exact ⟨rfl, .inr rfl⟩
  | _ =>
    cases List.mem_singleton.mp h
    exact ⟨rfl, .inl rfl⟩

/-- The single actions of a history are actions of the history or answers. -/
theorem mem_singles {timestamp : Timestamp} {actions : List Action} {single : Action}
    (h : single ∈ timestamp.singles actions) :
    single.isBatch = false ∧ (single ∈ actions ∨ single.isAnswer = true) := by
  induction actions generalizing timestamp with
  | nil => cases h
  | cons action rest ih =>
    rcases List.mem_append.mp h with h | h
    · rcases Action.mem_singles h with ⟨hsingle, rfl | hanswer⟩
      · exact ⟨hsingle, .inl List.mem_cons_self⟩
      · exact ⟨hsingle, .inr hanswer⟩
    · rcases ih h with ⟨hsingle, hmem | hanswer⟩
      · exact ⟨hsingle, .inl (List.mem_cons_of_mem _ hmem)⟩
      · exact ⟨hsingle, .inr hanswer⟩

/-! ## What histories keep -/

section Induction

variable (allowed : Action → Prop) (good : Timestamp → Prop)

/-- What every move keeps, every history of single actions keeps. -/
theorem after_induction_singles
    (move : ∀ {timestamp next action}, allowed action → Move timestamp action next →
      good timestamp → good next)
    {timestamp : Timestamp} {actions : List Action}
    (singles : ∀ action ∈ actions, action.isBatch = false ∧ allowed action)
    (start : good timestamp) : good (timestamp.after actions) := by
  induction actions generalizing timestamp with
  | nil => exact start
  | cons action rest ih =>
    rcases List.forall_mem_cons.mp singles with ⟨⟨hsingle, hallowed⟩, hrest⟩
    exact ih hrest (move hallowed (timestamp.move_step hsingle) start)

/-- What every move keeps, every history keeps. -/
theorem after_induction (answers : ∀ action : Action, action.isAnswer = true → allowed action)
    (move : ∀ {timestamp next action}, allowed action → Move timestamp action next →
      good timestamp → good next)
    {timestamp : Timestamp} {actions : List Action} (all : ∀ action ∈ actions, allowed action)
    (start : good timestamp) : good (timestamp.after actions) := by
  rw [← after_singles]
  refine after_induction_singles allowed good move ?_ start
  intro single hmem
  rcases mem_singles hmem with ⟨hsingle, hmem | hanswer⟩
  · exact ⟨hsingle, all single hmem⟩
  · exact ⟨hsingle, answers single hanswer⟩

end Induction

/-- Setting the context is no answer. -/
theorem Action.isAnswer_eq_false {action : Action} (h : action.setsContext = true) :
    action.isAnswer = false := by
  cases action <;> first | rfl | cases h

/-- Answers leave the context alone. -/
theorem context_of_move {timestamp next : Timestamp} {action : Action}
    (answer : action.isAnswer = true) (move : Move timestamp action next) :
    next.context = timestamp.context := by
  cases move with
  | idle => rfl
  | setContext sets => simp [Action.isAnswer_eq_false sets] at answer
  | attach now new => cases answer
  | takeIn now parsed ran new => exact context_attach timestamp now _
  | upgrade upgrading => exact context_withAttestations timestamp _

/-- Answers leave the context alone, however many there are. -/
theorem context_after (timestamp : Timestamp) {actions : List Action}
    (answers : ∀ action ∈ actions, action.isAnswer = true) :
    (timestamp.after actions).context = timestamp.context := by
  refine after_induction (fun action => action.isAnswer = true)
    (fun reached => reached.context = timestamp.context) (fun _ answer => answer) ?_ answers rfl
  intro reached next action answer move h
  rw [context_of_move answer move, h]

end CalendarStamp.Timestamp
