import CalendarStamp.Proofs.UpgradeStates

/-!
# What becomes of the replies to an update

An update asks the calendar of each pending attestation for the rest of its
chain, and brings what comes back together with the attestations by the lookup
key alone: a reply goes to the first attestation under the key that was asked
for.  That is the attestation it was sent for as long as no other one that is
asked for has the same key.  Where two of them share a key, as the bare promises
of two calendars do, the first takes what either calendar sends and the second
takes nothing.

Main results:

- Theorem `positionOfKey?_step_upgrade`: upgrades leave it where a key is found.
- Theorem `after_completing_found`: the attestation that is found under a key
  takes what is sent for the key, up to the first continuation that settles it.
- Theorem `after_completing_unfound`: all others stay as they are.
- Theorem `update_by_key`: what an update makes of every attestation, and that
  it goes by the reply to its own request where the key is not shared.
- Theorem `update_mixes_calendars`: an attestation that another calendar completed.
-/

namespace CalendarStamp

open Outcome

namespace Timestamp

/-! ## Chains that grow twice -/

/-- A chain may grow in two parts. -/
theorem extended_append {digest : Digest} {current middle : Attestation}
    {first : List Operation} (hran : extended digest current first = .ok middle)
    (second : List Operation) :
    extended digest middle second = extended digest current (first ++ second) := by
  have hoperations : middle.operations = current.operations ++ first :=
    Attestation.operations_of_fold hran
  have hagain := Attestation.fold_extended hran second
  rw [List.append_assoc] at hagain
  rw [extended, hoperations, List.append_assoc]
  exact hagain

/-- Running a chain again that has not grown changes nothing. -/
theorem extended_nil {digest : Digest} {current : Attestation}
    (h : current.Rederivable digest) : extended digest current [] = .ok current := by
  have hagain := Attestation.fold_extended h []
  have hlate := Attestation.fold_withSubmitted digest.bytes
    { current with submitted := 0 } current.submitted
  have hchain : (Attestation.ofOperations current.operations).operations = current.operations := rfl
  rw [hchain, List.append_nil] at hagain
  rw [hagain.trans h] at hlate
  rw [extended, List.append_nil]
  exact hlate

/-! ## Keys of attestations -/

/-- A chain that can be run leads to a key. -/
theorem exists_deriveKey {operations : List Operation}
    (h : ∀ operation ∈ operations, operation.kind?.isSome) (accumulator : Bytes) :
    ∃ key, deriveKey accumulator operations = .ok key := by
  induction operations generalizing accumulator with
  | nil => exact ⟨_, deriveKey_nil accumulator⟩
  | cons operation rest ih =>
    rcases List.forall_mem_cons.mp h with ⟨hfirst, hrest⟩
    rcases Step.ofOperation_isOk.mpr hfirst with ⟨step, hstep⟩
    cases step with
    | attest attested => exact ⟨_, deriveKey_attest hstep accumulator rest⟩
    | _ =>
      simp only [deriveKey, hstep, ok_bind]
      exact ih hrest _

/-- An attestation that follows from its chain has a lookup key. -/
theorem exists_calendarKey {timestamp : Timestamp} (h : timestamp.Rederivable)
    {attestation : Attestation} (hmem : attestation ∈ timestamp.attestations) :
    ∃ key, timestamp.calendarKey attestation = .ok key := by
  have hruns := (Attestation.fold_isOk_iff timestamp.digestHash.bytes _).mp ⟨_, h _ hmem⟩
  exact exists_deriveKey hruns _

/-- The key under which an attestation is found is its own. -/
theorem calendarKey_of_found {timestamp : Timestamp} {key : CalendarKey} {index : Nat}
    {attestation : Attestation} (hfound : timestamp.positionOfKey? key = some index)
    (hheld : timestamp.attestations[index]? = some attestation) :
    timestamp.calendarKey attestation = .ok key := by
  rcases positionOfKey?_eq_some_iff.mp hfound with ⟨found, hfirst⟩
  cases hheld.symm.trans hfirst.held
  exact hfirst.leads

/-! ## One upgrade -/

/-- An upgrade changes nothing, or else one attestation. -/
theorem step_upgrade_cases (timestamp : Timestamp) (key : CalendarKey) (bytes : Bytes) :
    (timestamp.step (.upgrade key bytes)).2 = timestamp ∨
      ∃ upgrading : timestamp.Upgrading key bytes,
        (timestamp.step (.upgrade key bytes)).2 = upgrading.next := by
  have hsingle : (Action.upgrade key bytes).isBatch = false := rfl
  have hmove := timestamp.move_step hsingle
  generalize (timestamp.step (.upgrade key bytes)).2 = next at hmove ⊢
  cases hmove with
  | idle => exact .inl rfl
  | setContext sets => cases sets
  | upgrade upgrading => exact .inr ⟨upgrading, rfl⟩

theorem digestHash_step_upgrade (timestamp : Timestamp) (key : CalendarKey) (bytes : Bytes) :
    (timestamp.step (.upgrade key bytes)).2.digestHash = timestamp.digestHash := by
  rcases timestamp.step_upgrade_cases key bytes with h | ⟨upgrading, h⟩
  · rw [h]
  · rw [h, Upgrading.next, digestHash_withAttestations]

theorem length_step_upgrade (timestamp : Timestamp) (key : CalendarKey) (bytes : Bytes) :
    (timestamp.step (.upgrade key bytes)).2.attestations.length =
      timestamp.attestations.length := by
  rcases timestamp.step_upgrade_cases key bytes with h | ⟨upgrading, h⟩
  · rw [h]
  · rw [h, Upgrading.next, attestations_withAttestations, List.length_set]

theorem rederivable_step_upgrade {timestamp : Timestamp} (h : timestamp.Rederivable)
    (key : CalendarKey) (bytes : Bytes) :
    (timestamp.step (.upgrade key bytes)).2.Rederivable := by
  have hanswers : ∀ action ∈ [Action.upgrade key bytes], action.isAnswer = true := by
    simp [Action.isAnswer]
  exact rederivable_after_answers hanswers h

/-- Whether the chain of every pending attestation attests. -/
def PromisesAttest (timestamp : Timestamp) : Prop :=
  ∀ attestation ∈ timestamp.attestations, attestation.isPending = true →
    ∃ operation ∈ attestation.operations, operation.isAttestation = true

/-- Attestations that follow from their chains are pending only if these attest. -/
theorem promisesAttest_of_rederivable {timestamp : Timestamp} (h : timestamp.Rederivable) :
    timestamp.PromisesAttest :=
  fun attestation hmem hpending => Attestation.attested_of_pending (h attestation hmem) hpending

/-- An upgrade leaves it where a key is found, since a chain that attests keeps
its key when it grows. -/
theorem positionOfKey?_upgrade {timestamp : Timestamp} (h : timestamp.PromisesAttest)
    {key : CalendarKey} {bytes : Bytes} (upgrading : timestamp.Upgrading key bytes)
    (other : CalendarKey) :
    upgrading.next.positionOfKey? other = timestamp.positionOfKey? other := by
  have hoperations : upgrading.result.operations =
      upgrading.current.operations ++ upgrading.continuation :=
    Attestation.operations_of_fold upgrading.ran
  have hattests := h _ (List.mem_of_getElem? upgrading.held) upgrading.pending
  have hkey : hasKey timestamp.digestHash other upgrading.result =
      hasKey timestamp.digestHash other upgrading.current := by
    refine hasKey_congr ?_ other
    rw [hoperations, deriveKey_append_of_attested hattests]
  rcases List.getElem?_eq_some_iff.mp upgrading.held with ⟨hlt, hheld⟩
  -- Seen through the test for the key, the list of attestations is the same as before.
  have hsame : (timestamp.attestations.set upgrading.index upgrading.result).map
        (hasKey timestamp.digestHash other) =
      timestamp.attestations.map (hasKey timestamp.digestHash other) := by
    rw [List.map_set, hkey, ← hheld, ← List.map_set, List.set_getElem_self]
  have hposition := congrArg (List.findIdx? id) hsame
  rw [List.findIdx?_map, List.findIdx?_map] at hposition
  exact hposition

/-- An upgrade leaves it where a key is found, whether or not it succeeds. -/
theorem positionOfKey?_step_upgrade {timestamp : Timestamp} (h : timestamp.Rederivable)
    (key : CalendarKey) (bytes : Bytes) (other : CalendarKey) :
    (timestamp.step (.upgrade key bytes)).2.positionOfKey? other =
      timestamp.positionOfKey? other := by
  rcases timestamp.step_upgrade_cases key bytes with hstep | ⟨upgrading, hstep⟩
  · rw [hstep]
  · rw [hstep]
    exact positionOfKey?_upgrade (promisesAttest_of_rederivable h) upgrading other

/-- An upgrade leaves an attestation alone that is not found under the key. -/
theorem getElem?_step_upgrade_of_unfound {timestamp : Timestamp} {key : CalendarKey} {index : Nat}
    (hunfound : timestamp.positionOfKey? key ≠ some index) (bytes : Bytes) :
    (timestamp.step (.upgrade key bytes)).2.attestations[index]? =
      timestamp.attestations[index]? := by
  rcases timestamp.step_upgrade_cases key bytes with h | ⟨upgrading, h⟩
  · rw [h]
  · have hindex : upgrading.index ≠ index := by
      intro hindex
      exact hunfound (hindex ▸ upgrading.found)
    rw [h, Upgrading.next, attestations_withAttestations, List.getElem?_set_ne hindex]

/-- An upgrade with bytes that cannot be read changes nothing. -/
theorem step_upgrade_of_unread (timestamp : Timestamp) (key : CalendarKey) {bytes : Bytes}
    {e : Error} (hunread : Chain.parse bytes = .error e) :
    (timestamp.step (.upgrade key bytes)).2 = timestamp := by
  rcases timestamp.step_upgrade_cases key bytes with h | ⟨upgrading, _⟩
  · exact h
  · have hparsed := upgrading.parsed
    rw [hunread] at hparsed
    cases hparsed

/-- An upgrade runs the pending attestation that is found under the key with the
longer chain. -/
theorem step_upgrade_of_found {timestamp : Timestamp} {key : CalendarKey} {index : Nat}
    {attestation : Attestation} {bytes : Bytes} {continuation : List Operation}
    (h : timestamp.Rederivable) (hfound : timestamp.positionOfKey? key = some index)
    (hheld : timestamp.attestations[index]? = some attestation)
    (hpending : attestation.isPending = true) (hparsed : Chain.parse bytes = .ok continuation) :
    ∃ result, extended timestamp.digestHash attestation continuation = .ok result ∧
      (timestamp.step (.upgrade key bytes)).2.attestations[index]? = some result ∧
      result.isPending = !settles continuation := by
  rcases extended_isOk (h _ (List.mem_of_getElem? hheld)) hparsed with ⟨result, hran⟩
  let upgrading : timestamp.Upgrading key bytes :=
    ⟨index, attestation, continuation, result, hfound, hheld, hpending, hparsed, hran⟩
  have hnext : timestamp.upgrade key bytes = .ok upgrading.next :=
    upgrade_eq_ok.mpr ⟨upgrading, rfl⟩
  refine ⟨result, hran, ?_, isPending_result h upgrading⟩
  rw [step_upgrade_of_ok hnext]
  exact upgrading.getElem?_next

/-! ## What replies deliver -/

/-- The continuation that a reply delivers for a key: what was sent in answer to
a lookup of this key, if it can be read. -/
def continuationFor? (key : CalendarKey) (answer : (String × CalendarKey) × Reply) :
    Option (List Operation) :=
  if answer.1.2 = key then
    answer.2.toOption.bind fun bytes => (Chain.parse bytes).toOption
  else
    none

theorem continuationFor?_eq_some {key asked : CalendarKey} {url : String} {reply : Reply}
    {continuation : List Operation} :
    continuationFor? key ((url, asked), reply) = some continuation ↔
      asked = key ∧ ∃ bytes, reply = .ok bytes ∧ Chain.parse bytes = .ok continuation := by
  unfold continuationFor?
  by_cases hasked : asked = key
  · simp [hasked, Option.bind_eq_some_iff]
  · simp [hasked]

/-- Continuations one after the other, up to the first that settles. -/
def untilSettled : List (List Operation) → List Operation
  | [] => []
  | continuation :: rest =>
    if settles continuation then continuation else continuation ++ untilSettled rest

/-- What the replies to lookups add to the chain that is found under a key. -/
def delivered (key : CalendarKey) (answers : List ((String × CalendarKey) × Reply)) :
    List Operation :=
  untilSettled (answers.filterMap (continuationFor? key))

theorem delivered_cons_of_none {key : CalendarKey} {answer : (String × CalendarKey) × Reply}
    (h : continuationFor? key answer = none) (rest : List ((String × CalendarKey) × Reply)) :
    delivered key (answer :: rest) = delivered key rest := by
  rw [delivered, List.filterMap_cons_none h, delivered]

theorem delivered_cons_of_some {key : CalendarKey} {answer : (String × CalendarKey) × Reply}
    {continuation : List Operation} (h : continuationFor? key answer = some continuation)
    (rest : List ((String × CalendarKey) × Reply)) :
    delivered key (answer :: rest) =
      if settles continuation then continuation else continuation ++ delivered key rest := by
  rw [delivered, List.filterMap_cons_some h, untilSettled, delivered]

/-- When a key is asked for once, what is added is what the one reply delivers. -/
theorem delivered_of_once {key : CalendarKey}
    {before behind : List ((String × CalendarKey) × Reply)}
    (answer : (String × CalendarKey) × Reply)
    (hbefore : ∀ other ∈ before, other.1.2 ≠ key) (hbehind : ∀ other ∈ behind, other.1.2 ≠ key) :
    delivered key (before ++ answer :: behind) = (continuationFor? key answer).getD [] := by
  have hnone : ∀ {answers : List ((String × CalendarKey) × Reply)},
      (∀ other ∈ answers, other.1.2 ≠ key) →
        answers.filterMap (continuationFor? key) = [] := by
    intro answers hother
    rw [List.filterMap_eq_nil_iff]
    intro other hmem
    exact if_neg (hother other hmem)
  rw [delivered, List.filterMap_append, List.filterMap_cons, hnone hbefore, hnone hbehind,
    List.nil_append]
  cases continuationFor? key answer with
  | none => rfl
  | some continuation => simp [untilSettled]

/-! ## Replies one after the other -/

theorem length_after_completing (timestamp : Timestamp)
    (answers : List ((String × CalendarKey) × Reply)) :
    (timestamp.after (completing answers)).attestations.length =
      timestamp.attestations.length := by
  induction answers generalizing timestamp with
  | nil => rfl
  | cons answer rest ih =>
    rcases answer with ⟨⟨url, asked⟩, reply⟩
    cases reply with
    | error cause => exact ih timestamp
    | ok bytes =>
      have hnext := ih (timestamp.step (.upgrade asked bytes)).2
      exact hnext.trans (timestamp.length_step_upgrade asked bytes)

/-- Replies leave an attestation alone that is found under none of the keys that
were asked for. -/
theorem after_completing_unfound {timestamp : Timestamp} (h : timestamp.Rederivable) {index : Nat}
    {answers : List ((String × CalendarKey) × Reply)}
    (hunfound : ∀ answer ∈ answers, timestamp.positionOfKey? answer.1.2 ≠ some index) :
    (timestamp.after (completing answers)).attestations[index]? =
      timestamp.attestations[index]? := by
  induction answers generalizing timestamp with
  | nil => rfl
  | cons answer rest ih =>
    rcases answer with ⟨⟨url, asked⟩, reply⟩
    rcases List.forall_mem_cons.mp hunfound with ⟨hfirst, hrest⟩
    cases reply with
    | error cause => exact ih h hrest
    | ok bytes =>
      have hlater : ∀ answer ∈ rest,
          (timestamp.step (.upgrade asked bytes)).2.positionOfKey? answer.1.2 ≠ some index := by
        intro answer hmem
        rw [positionOfKey?_step_upgrade h]
        exact hrest answer hmem
      have hnext := ih (rederivable_step_upgrade h asked bytes) hlater
      exact hnext.trans (getElem?_step_upgrade_of_unfound hfirst bytes)

/-- Replies leave an attestation alone that is not pending. -/
theorem after_completing_final {timestamp : Timestamp} {index : Nat} {attestation : Attestation}
    (hheld : timestamp.attestations[index]? = some attestation)
    (hfinal : attestation.isPending = false)
    (answers : List ((String × CalendarKey) × Reply)) :
    (timestamp.after (completing answers)).attestations[index]? = some attestation := by
  rcases (grows_after timestamp (completing answers)).attestations hheld with ⟨later, hlater, hone⟩
  rw [hlater, hone.final hfinal]

/-- A reply that delivers nothing for a key leaves the attestation alone that is
found under it. -/
theorem getElem?_step_upgrade_of_undelivered {timestamp : Timestamp} {key asked : CalendarKey}
    {index : Nat} {attestation : Attestation} {url : String} {bytes : Bytes}
    (hfound : timestamp.positionOfKey? key = some index)
    (hheld : timestamp.attestations[index]? = some attestation)
    (hnothing : continuationFor? key ((url, asked), .ok bytes) = none) :
    (timestamp.step (.upgrade asked bytes)).2.attestations[index]? = some attestation := by
  by_cases hasked : asked = key
  · subst hasked
    cases hparsed : Chain.parse bytes with
    | error e => rw [timestamp.step_upgrade_of_unread asked hparsed, hheld]
    | ok continuation =>
      rw [continuationFor?_eq_some.mpr ⟨rfl, bytes, rfl, hparsed⟩] at hnothing
      cases hnothing
  · have hunfound : timestamp.positionOfKey? asked ≠ some index := by
      intro hthere
      have hkey := calendarKey_of_found hfound hheld
      rw [calendarKey_of_found hthere hheld] at hkey
      cases hkey
      exact hasked rfl
    rw [getElem?_step_upgrade_of_unfound hunfound, hheld]

/-- The pending attestation that is found under a key takes what the replies
deliver for the key. -/
theorem after_completing_found {timestamp : Timestamp} (h : timestamp.Rederivable)
    {key : CalendarKey} {index : Nat} {attestation : Attestation}
    (hfound : timestamp.positionOfKey? key = some index)
    (hheld : timestamp.attestations[index]? = some attestation)
    (hpending : attestation.isPending = true)
    (answers : List ((String × CalendarKey) × Reply)) :
    ∃ later, (timestamp.after (completing answers)).attestations[index]? = some later ∧
      extended timestamp.digestHash attestation (delivered key answers) = .ok later := by
  induction answers generalizing timestamp attestation with
  | nil => exact ⟨attestation, hheld, extended_nil (h _ (List.mem_of_getElem? hheld))⟩
  | cons answer rest ih =>
    rcases answer with ⟨⟨url, asked⟩, reply⟩
    cases reply with
    | error cause =>
      have hnone : continuationFor? key ((url, asked), .error cause) = none := by
        unfold continuationFor?
        split <;> rfl
      rw [delivered_cons_of_none hnone]
      exact ih h hfound hheld hpending
    | ok bytes =>
      have hafter : timestamp.after (completing (((url, asked), .ok bytes) :: rest)) =
          (timestamp.step (.upgrade asked bytes)).2.after (completing rest) := rfl
      have hnext := rederivable_step_upgrade h asked bytes
      have hthere : (timestamp.step (.upgrade asked bytes)).2.positionOfKey? key = some index := by
        rw [positionOfKey?_step_upgrade h, hfound]
      have hdigest := timestamp.digestHash_step_upgrade asked bytes
      rw [hafter]
      cases hdelivered : continuationFor? key ((url, asked), .ok bytes) with
      | none =>
        rw [delivered_cons_of_none hdelivered, ← hdigest]
        exact ih hnext hthere (getElem?_step_upgrade_of_undelivered hfound hheld hdelivered)
          hpending
      | some continuation =>
        rcases continuationFor?_eq_some.mp hdelivered with ⟨rfl, _, hbytes, hparsed⟩
        cases hbytes
        rcases step_upgrade_of_found h hfound hheld hpending hparsed with
          ⟨result, hran, hresult, hstate⟩
        rw [delivered_cons_of_some hdelivered]
        by_cases hsettles : settles continuation = true
        · -- From here on the key is refused, so later replies do not count.
          have hfinal : result.isPending = false := by simp [hstate, hsettles]
          rw [if_pos hsettles]
          exact ⟨result, after_completing_final hresult hfinal rest, hran⟩
        · have hopen : result.isPending = true := by simp [hstate, hsettles]
          rw [if_neg hsettles, ← extended_append hran, ← hdigest]
          exact ih hnext hthere hresult hopen

/-! ## The requests of an update -/

/-- The number of the request for the attestation at a position: there are as
many before it as pending attestations with a key stand before the attestation. -/
def requestNumber (timestamp : Timestamp) (index : Nat) : Nat :=
  (timestamp.withAttestations (timestamp.attestations.take index)).pendingKeys.length

/-- An update asks for the pending attestations whose key can be derived. -/
theorem mem_pendingKeys {timestamp : Timestamp} {url : String} {key : CalendarKey} :
    (url, key) ∈ timestamp.pendingKeys ↔
      ∃ attestation ∈ timestamp.attestations, attestation.isPending = true ∧
        timestamp.calendarKey attestation = .ok key ∧ attestation.calendarUrl = url := by
  unfold pendingKeys pending
  rw [List.mem_filterMap]
  constructor
  · rintro ⟨attestation, hmem, hasked⟩
    rcases List.mem_filter.mp hmem with ⟨hmem, hpending⟩
    split at hasked
    · rename_i derived hkey
      cases hasked
      exact ⟨attestation, hmem, hpending, hkey, rfl⟩
    · cases hasked
  · rintro ⟨attestation, hmem, hpending, hkey, rfl⟩
    refine ⟨attestation, List.mem_filter.mpr ⟨hmem, hpending⟩, ?_⟩
    rw [hkey]

/-- The requests for some attestations come before those for the attestations behind them. -/
theorem pendingKeys_append (timestamp : Timestamp) (first second : List Attestation) :
    (timestamp.withAttestations (first ++ second)).pendingKeys =
      (timestamp.withAttestations first).pendingKeys ++
        (timestamp.withAttestations second).pendingKeys := by
  unfold pendingKeys pending
  rw [attestations_withAttestations, List.filter_append, List.filterMap_append]
  rfl

/-- Where the request for an attestation stands among the requests of an update. -/
theorem pendingKeys_eq_append {timestamp : Timestamp} {index : Nat} {attestation : Attestation}
    {key : CalendarKey} (hheld : timestamp.attestations[index]? = some attestation)
    (hpending : attestation.isPending = true)
    (hkey : timestamp.calendarKey attestation = .ok key) :
    timestamp.pendingKeys =
      (timestamp.withAttestations (timestamp.attestations.take index)).pendingKeys ++
        (attestation.calendarUrl, key) ::
          (timestamp.withAttestations (timestamp.attestations.drop (index + 1))).pendingKeys := by
  rcases List.getElem?_eq_some_iff.mp hheld with ⟨hlt, rfl⟩
  have hone : (timestamp.withAttestations [timestamp.attestations[index]]).pendingKeys =
      [(timestamp.attestations[index].calendarUrl, key)] := by
    have hsame : (timestamp.withAttestations [timestamp.attestations[index]]).calendarKey
        timestamp.attestations[index] = .ok key := hkey
    simp [pendingKeys, pending, hpending, hsame]
  calc
    timestamp.pendingKeys
        = (timestamp.withAttestations (timestamp.attestations.take index ++
            ([timestamp.attestations[index]] ++
              timestamp.attestations.drop (index + 1)))).pendingKeys := by
          rw [List.singleton_append, ← List.drop_eq_getElem_cons hlt, List.take_append_drop]
          rfl
    _ = _ := by rw [pendingKeys_append, pendingKeys_append, hone, List.singleton_append]

/-- Every request of an update has a reply. -/
theorem map_fst_updateAnswers (timestamp : Timestamp) (transport : Transport) (start : Nat) :
    (timestamp.updateAnswers transport start).map Prod.fst = timestamp.pendingKeys := by
  unfold updateAnswers Transport.exchange
  rw [List.map_fst_zip]
  simp

/-- The answers of an update, split at the one to the request for an attestation. -/
theorem updateAnswers_eq_append {timestamp : Timestamp} (transport : Transport) (start : Nat)
    {index : Nat} {attestation : Attestation} {key : CalendarKey}
    (hheld : timestamp.attestations[index]? = some attestation)
    (hpending : attestation.isPending = true)
    (hkey : timestamp.calendarKey attestation = .ok key) :
    ∃ before reply behind,
      timestamp.updateAnswers transport start =
        before ++ ((attestation.calendarUrl, key), reply) :: behind ∧
      before.map Prod.fst =
        (timestamp.withAttestations (timestamp.attestations.take index)).pendingKeys ∧
      behind.map Prod.fst =
        (timestamp.withAttestations (timestamp.attestations.drop (index + 1))).pendingKeys := by
  have hmap := timestamp.map_fst_updateAnswers transport start
  rw [pendingKeys_eq_append hheld hpending hkey] at hmap
  rcases List.map_eq_append_iff.mp hmap with ⟨before, tail, hsplit, hbefore, htail⟩
  rcases List.map_eq_cons_iff.mp htail with ⟨⟨asked, reply⟩, behind, rfl, rfl, hbehind⟩
  exact ⟨before, reply, behind, hsplit, hbefore, hbehind⟩

/-! ## Calendars that are kept apart -/

/-- Whether an attestation is, after an update, what it was, or what the reply
to the request for it makes of it when it is pending. -/
def FromOwnReply (timestamp : Timestamp) (transport : Transport) (index : Nat)
    (earlier later : Attestation) : Prop :=
  later = earlier ∨
    earlier.isPending = true ∧ ∃ key bytes continuation,
      timestamp.calendarKey earlier = .ok key ∧
      (timestamp.updateAnswers transport 0)[timestamp.requestNumber index]? =
        some ((earlier.calendarUrl, key), .ok bytes) ∧
      Chain.parse bytes = .ok continuation ∧
      extended timestamp.digestHash earlier continuation = .ok later

/-- Whether an update changes attestations by the replies to their own requests only. -/
def KeepsApart (timestamp : Timestamp) (transport : Transport) : Prop :=
  ∀ (index : Nat) (earlier later : Attestation),
    timestamp.attestations[index]? = some earlier →
      (timestamp.step (.update transport)).2.attestations[index]? = some later →
        timestamp.FromOwnReply transport index earlier later

/-- Whether no other pending attestation is looked up under the key of one. -/
def Unshared (timestamp : Timestamp) (index : Nat) (key : CalendarKey) : Prop :=
  ∀ (other : Nat) (held : Attestation), other ≠ index →
    timestamp.attestations[other]? = some held → held.isPending = true →
      timestamp.calendarKey held ≠ .ok key

/-- Requests for attestations at other positions are for other keys than one that
is not shared. -/
theorem key_ne_of_unshared {timestamp : Timestamp} {index : Nat} {key : CalendarKey}
    (hunshared : timestamp.Unshared index key) {others : List Attestation}
    {answers : List ((String × CalendarKey) × Reply)}
    (hasked : answers.map Prod.fst = (timestamp.withAttestations others).pendingKeys)
    (hothers : ∀ held ∈ others, ∃ other, other ≠ index ∧
      timestamp.attestations[other]? = some held) :
    ∀ answer ∈ answers, answer.1.2 ≠ key := by
  intro answer hmem hsame
  have hrequest : answer.1 ∈ (timestamp.withAttestations others).pendingKeys := by
    rw [← hasked]
    exact List.mem_map_of_mem hmem
  rcases mem_pendingKeys.mp hrequest with ⟨held, hheld, hpending, hkey, _⟩
  rcases hothers held hheld with ⟨other, hindex, hthere⟩
  exact hunshared other held hindex hthere hpending (hsame ▸ hkey)

/-- A key that is not shared is asked for once, in the request for its attestation. -/
theorem updateAnswers_of_unshared {timestamp : Timestamp} (transport : Transport) (start : Nat)
    {index : Nat} {attestation : Attestation} {key : CalendarKey}
    (hheld : timestamp.attestations[index]? = some attestation)
    (hpending : attestation.isPending = true)
    (hkey : timestamp.calendarKey attestation = .ok key)
    (hunshared : timestamp.Unshared index key) :
    ∃ before reply behind,
      timestamp.updateAnswers transport start =
        before ++ ((attestation.calendarUrl, key), reply) :: behind ∧
      before.length = timestamp.requestNumber index ∧
      (∀ answer ∈ before, answer.1.2 ≠ key) ∧ ∀ answer ∈ behind, answer.1.2 ≠ key := by
  rcases updateAnswers_eq_append transport start hheld hpending hkey with
    ⟨before, reply, behind, hanswers, hbefore, hbehind⟩
  have hlength : before.length = timestamp.requestNumber index := by
    rw [requestNumber, ← hbefore, List.length_map]
  refine ⟨before, reply, behind, hanswers, hlength, ?_, ?_⟩
  · refine key_ne_of_unshared hunshared hbefore ?_
    intro held hmem
    rcases List.mem_take_iff_getElem.mp hmem with ⟨other, hbound, rfl⟩
    exact ⟨other, by omega, List.getElem?_eq_getElem (by omega)⟩
  · refine key_ne_of_unshared hunshared hbehind ?_
    intro held hmem
    rcases List.mem_drop_iff_getElem.mp hmem with ⟨other, hbound, rfl⟩
    exact ⟨index + 1 + other, by omega, List.getElem?_eq_getElem (by omega)⟩

/-- Where a key is not shared, what is delivered for it came in reply to the one
request for it. -/
theorem fromOwnReply_of_unshared {timestamp : Timestamp} {transport : Transport} {index : Nat}
    {earlier later : Attestation} {key : CalendarKey} (h : timestamp.Rederivable)
    (hheld : timestamp.attestations[index]? = some earlier) (hpending : earlier.isPending = true)
    (hkey : timestamp.calendarKey earlier = .ok key) (hunshared : timestamp.Unshared index key)
    (hran : extended timestamp.digestHash earlier
      (delivered key (timestamp.updateAnswers transport 0)) = .ok later) :
    timestamp.FromOwnReply transport index earlier later := by
  rcases updateAnswers_of_unshared transport 0 hheld hpending hkey hunshared with
    ⟨before, reply, behind, hanswers, hlength, hbefore, hbehind⟩
  have hown : (timestamp.updateAnswers transport 0)[timestamp.requestNumber index]? =
      some ((earlier.calendarUrl, key), reply) := by
    rw [hanswers, ← hlength]
    simp
  rw [hanswers, delivered_of_once _ hbefore hbehind] at hran
  cases hcontinuation : continuationFor? key ((earlier.calendarUrl, key), reply) with
  | none =>
    have hsame := extended_nil (h _ (List.mem_of_getElem? hheld))
    rw [hcontinuation, Option.getD_none, hsame] at hran
    cases hran
    exact .inl rfl
  | some continuation =>
    rw [hcontinuation, Option.getD_some] at hran
    rcases continuationFor?_eq_some.mp hcontinuation with ⟨_, bytes, rfl, hparsed⟩
    exact .inr ⟨hpending, key, bytes, continuation, hkey, hown, hparsed, hran⟩

/-- In every state of a history of answers that starts without attestations, an
update neither adds nor removes attestations, and it makes of each what its key
makes of the replies.  The pending attestation that is found under its key takes
the continuations that are sent for the key, whichever calendar sends them, in
the order of the requests and up to the first that settles it; all others stay
as they are.  So an attestation whose key no other pending attestation shares
only changes by the reply to the request for it. -/
theorem update_by_key {timestamp : Timestamp} (unstamped : timestamp.attestations = [])
    {before : List Action} (answers : ∀ action ∈ before, action.isAnswer = true)
    (transport : Transport) :
    ((timestamp.after before).step (.update transport)).2.attestations.length =
        (timestamp.after before).attestations.length ∧
      ∀ (index : Nat) (earlier : Attestation),
        (timestamp.after before).attestations[index]? = some earlier →
          ∃ key later, (timestamp.after before).calendarKey earlier = .ok key ∧
            ((timestamp.after before).step (.update transport)).2.attestations[index]? =
              some later ∧
            (if earlier.isPending = true ∧
                (timestamp.after before).positionOfKey? key = some index then
              extended (timestamp.after before).digestHash earlier
                (delivered key ((timestamp.after before).updateAnswers transport 0)) = .ok later
            else
              later = earlier) ∧
            ((timestamp.after before).Unshared index key →
              (timestamp.after before).FromOwnReply transport index earlier later) := by
  have h : (timestamp.after before).Rederivable := by
    refine rederivable_after_answers answers ?_
    intro attestation hmem
    simp [unstamped] at hmem
  have hupdate : ((timestamp.after before).step (.update transport)).2 =
      (timestamp.after before).after
        (completing ((timestamp.after before).updateAnswers transport 0)) :=
    step_eq_after_singles _ _
  rw [hupdate]
  refine ⟨length_after_completing _ _, ?_⟩
  intro index earlier hheld
  rcases exists_calendarKey h (List.mem_of_getElem? hheld) with ⟨key, hkey⟩
  by_cases htakes : earlier.isPending = true ∧
      (timestamp.after before).positionOfKey? key = some index
  · rcases after_completing_found h htakes.2 hheld htakes.1
      ((timestamp.after before).updateAnswers transport 0) with ⟨later, hlater, hran⟩
    refine ⟨key, later, hkey, hlater, ?_, ?_⟩
    · rw [if_pos htakes]
      exact hran
    · intro hunshared
      exact fromOwnReply_of_unshared h hheld htakes.1 hkey hunshared hran
  · have hsame : ((timestamp.after before).after
        (completing ((timestamp.after before).updateAnswers transport 0))).attestations[index]? =
          some earlier := by
      by_cases hpending : earlier.isPending = true
      · rw [after_completing_unfound h, hheld]
        intro answer _ hfound
        -- A key under which the attestation is found is its own key.
        have hown := calendarKey_of_found hfound hheld
        rw [hkey] at hown
        cases hown
        exact htakes ⟨hpending, hfound⟩
      · exact after_completing_final hheld (by simpa using hpending) _
    refine ⟨key, earlier, hkey, hsame, ?_, fun _ => .inl rfl⟩
    rw [if_neg htakes]

/-- The promises of two calendars that attest the new timestamp directly, and so
are looked up under the same key. -/
def promises : List Action :=
  [.importResponse 7 (promise 0x61), .importResponse 7 (promise 0x62)]

/-- The promise of a third calendar, which appends a byte before it attests. -/
def detour : Action :=
  .importResponse 7 ([0xf0, 0x01, 0x2a] ++ promise 0x63)

/-- The first calendar does not answer, the second sends the rest of its chain. -/
def secondAnswers : Transport :=
  Transport.ofList [.error .timeout, .ok anchorage]

/-- The answer of the second calendar goes to the attestation of the first one, since
both promises are looked up under one key. -/
theorem update_by_key_promises :
    specimen.attestations = [] ∧
      (∀ action ∈ promises ++ [detour], action.isAnswer = true) ∧
      (specimen.after (promises ++ [detour])).Unshared 2 ⟨specimenKey.bytes ++ [0x2a]⟩ ∧
      ((specimen.after (promises ++ [detour])).step (.update secondAnswers)).2.attestations.length =
          (specimen.after (promises ++ [detour])).attestations.length ∧
        ∀ (index : Nat) (earlier : Attestation),
          (specimen.after (promises ++ [detour])).attestations[index]? = some earlier →
            ∃ key later, (specimen.after (promises ++ [detour])).calendarKey earlier = .ok key ∧
              ((specimen.after (promises ++ [detour])).step
                  (.update secondAnswers)).2.attestations[index]? = some later ∧
              (if earlier.isPending = true ∧
                  (specimen.after (promises ++ [detour])).positionOfKey? key = some index then
                extended (specimen.after (promises ++ [detour])).digestHash earlier
                  (delivered key ((specimen.after (promises ++ [detour])).updateAnswers
                    secondAnswers 0)) = .ok later
              else
                later = earlier) ∧
              ((specimen.after (promises ++ [detour])).Unshared index key →
                (specimen.after (promises ++ [detour])).FromOwnReply secondAnswers index earlier
                  later) := by
  have hanswers : ∀ action ∈ promises ++ [detour], action.isAnswer = true := by decide
  have hlength : (specimen.after (promises ++ [detour])).attestations.length = 3 := by
    decide +kernel
  have hkeys : ∀ held ∈ (specimen.after (promises ++ [detour])).attestations.take 2,
      ((specimen.after (promises ++ [detour])).calendarKey held).toOption ≠
        some ⟨specimenKey.bytes ++ [0x2a]⟩ := by
    decide +kernel
  refine ⟨rfl, hanswers, ?_, update_by_key rfl hanswers secondAnswers⟩
  intro other held hother hheld _ hkey
  rcases List.getElem?_eq_some_iff.mp hheld with ⟨hlt, hthere⟩
  have hfirst : held ∈ (specimen.after (promises ++ [detour])).attestations.take 2 :=
    List.mem_take_iff_getElem.mpr ⟨other, by omega, hthere⟩
  exact hkeys held hfirst (toOption_eq_some.mpr hkey)

/-- Of two calendars whose promises share a key, the first does not answer; what
the second sends completes the attestation of the first, and the log says that
the attestation of the second was. -/
theorem update_mixes_calendars :
    create 0 [0x2a] ⟨List.replicate 16 0, rfl⟩ = .ok specimen ∧
      ((specimen.after promises).update secondAnswers 0).log.drop 2 =
        [.notUpgraded "a" .timeout, .upgraded "b"] ∧
      ((specimen.after promises).step (.update secondAnswers)).2.attestations.map
          (fun attestation => (attestation.calendarUrl, attestation.status)) =
        [("a", AttestationStatus.bitcoin.code), ("b", AttestationStatus.pending.code)] ∧
      ¬(specimen.after promises).KeepsApart secondAnswers := by
  refine ⟨rfl, by decide +kernel, by decide +kernel, ?_⟩
  intro hapart
  have hchanged : ((specimen.after promises).step (.update secondAnswers)).2.attestations[0]? ≠
      (specimen.after promises).attestations[0]? := by
    decide +kernel
  have hsilent : (((specimen.after promises).updateAnswers secondAnswers 0)[
      (specimen.after promises).requestNumber 0]?.map fun answer => answer.2.toOption) =
        some none := by
    decide +kernel
  have hearlier : (specimen.after promises).attestations[0]?.isSome = true := by decide +kernel
  have hlater : ((specimen.after promises).step
      (.update secondAnswers)).2.attestations[0]?.isSome = true := by
    decide +kernel
  rcases Option.isSome_iff_exists.mp hearlier with ⟨earlier, hearlier⟩
  rcases Option.isSome_iff_exists.mp hlater with ⟨later, hlater⟩
  rcases hapart 0 earlier later hearlier hlater with
    hsame | ⟨_, key, bytes, continuation, _, hown, _⟩
  · rw [hearlier, hlater, hsame] at hchanged
    exact hchanged rfl
  · rw [hown] at hsilent
    cases hsilent

end Timestamp

end CalendarStamp
