import CalendarStamp.Proofs.CommutingUpgrades

/-!
# The one effect of an upgrade

An upgrade finds its attestation by a key, looks at the status, reads the
continuation and runs the longer chain.  Each of these can put an end to it, and
then the timestamp is what it was.  If none does, one attestation is replaced by
a new run of it, and nothing else changes.  This holds of every timestamp, also
of one with chains that do not run, or with several chains under one key.

Main results:

- Theorem `ReplacedAt.unique`: what is replaced and what is kept determine the
  timestamp.
- Theorem `step_upgrade_of_effect`: an upgrade has every effect that it can have.
- Theorem `exists_effect`: and it has one.
- Theorem `step_upgrade_iff`: so it has exactly one, and it succeeds when nothing
  stands against it.
-/

namespace CalendarStamp.Timestamp

open Outcome

variable {timestamp next : Timestamp} {key : CalendarKey} {bytes : Bytes}

/-! ## Replacing an attestation -/

/-- Whether a timestamp comes from another one by replacing the attestation at a
position, while every other attestation, the context and the digest stay. -/
structure ReplacedAt (timestamp : Timestamp) (index : Nat) (replacement : Attestation)
    (next : Timestamp) : Prop where
  replaced : next.attestations[index]? = some replacement
  others : ∀ {position : Nat}, position ≠ index →
    next.attestations[position]? = timestamp.attestations[position]?
  context : next.context = timestamp.context
  digest : next.digestHash = timestamp.digestHash

/-- What is replaced and what is kept determine the timestamp. -/
theorem ReplacedAt.unique {index : Nat} {replacement : Attestation} {next' : Timestamp}
    (h : timestamp.ReplacedAt index replacement next)
    (h' : timestamp.ReplacedAt index replacement next') : next = next' := by
  refine eq_of_context (h.context.trans h'.context.symm) (List.ext_getElem? fun position => ?_)
  by_cases hposition : position = index
  · rw [hposition, h.replaced, h'.replaced]
  · rw [h.others hposition, h'.others hposition]

/-- An upgrade that succeeds replaces the attestation that it found. -/
theorem Upgrading.replacedAt (upgrading : timestamp.Upgrading key bytes) :
    timestamp.ReplacedAt upgrading.index upgrading.result upgrading.next where
  replaced := upgrading.getElem?_next
  others hposition := by
    rw [Upgrading.next, attestations_withAttestations, List.getElem?_set_ne hposition.symm]
  context := context_withAttestations timestamp _
  digest := digestHash_withAttestations timestamp _

/-! ## Effects -/

/-- What an upgrade may come to: its result, and the timestamp after it. -/
inductive UpgradeEffect (timestamp : Timestamp) (key : CalendarKey) (bytes : Bytes) :
    Except Error Result × Timestamp → Prop
  /-- No chain leads to the key. -/
  | unfound
      (missing : ∀ attestation ∈ timestamp.attestations,
        timestamp.calendarKey attestation ≠ .ok key) :
      UpgradeEffect timestamp key bytes (.error .notFound, timestamp)
  /-- The first attestation under the key is not pending. -/
  | final {index : Nat} {current : Attestation} (first : timestamp.IsFirstUnder key index current)
      (settled : current.isPending = false) :
      UpgradeEffect timestamp key bytes (.error .alreadyUpgraded, timestamp)
  /-- It is, but the continuation cannot be read. -/
  | unread {index : Nat} {current : Attestation} {e : Error}
      (first : timestamp.IsFirstUnder key index current) (pending : current.isPending = true)
      (unread : Chain.parse bytes = .error e) :
      UpgradeEffect timestamp key bytes (.error e, timestamp)
  /-- It can, but the chain so far holds an operation of unknown kind. -/
  | stuck {index : Nat} {current : Attestation} {continuation : List Operation}
      {operation : Operation} (first : timestamp.IsFirstUnder key index current)
      (pending : current.isPending = true) (parsed : Chain.parse bytes = .ok continuation)
      (unknown : Operation.firstUnknown? current.operations = some operation) :
      UpgradeEffect timestamp key bytes (.error (.unhandledOperation operation.kind), timestamp)
  /-- It does not, and the attestation is replaced by a run of its longer chain. -/
  | extended {index : Nat} {current result : Attestation} {continuation : List Operation}
      {next : Timestamp} (first : timestamp.IsFirstUnder key index current)
      (pending : current.isPending = true) (parsed : Chain.parse bytes = .ok continuation)
      (known : Operation.firstUnknown? current.operations = none)
      (ran : { current with operations := current.operations ++ continuation }.fold
        timestamp.digestHash.bytes = .ok result)
      (submitted : result.submitted = current.submitted)
      (replaced : timestamp.ReplacedAt index result next) :
      UpgradeEffect timestamp key bytes (.ok .nothing, next)

/-- The attestation that an upgrade goes by is the first one under its key. -/
theorem isFirstUnder_of_found {index : Nat} {current : Attestation}
    (found : timestamp.positionOfKey? key = some index)
    (held : timestamp.attestations[index]? = some current) :
    timestamp.IsFirstUnder key index current := by
  rcases positionOfKey?_eq_some_iff.mp found with ⟨attestation, hfirst⟩
  cases held.symm.trans hfirst.held
  exact hfirst

/-- An upgrade has every effect that it can have. -/
theorem step_upgrade_of_effect {outcome : Except Error Result × Timestamp}
    (effect : timestamp.UpgradeEffect key bytes outcome) :
    timestamp.step (.upgrade key bytes) = outcome := by
  cases effect with
  | unfound missing =>
    exact step_upgrade_of_refusal (.unfound (positionOfKey?_eq_none_iff.mpr missing))
  | final first settled =>
    have hfound := positionOfKey?_eq_some_iff.mpr ⟨_, first⟩
    exact step_upgrade_of_refusal (.final hfound first.held settled)
  | unread first pending unread =>
    have hfound := positionOfKey?_eq_some_iff.mpr ⟨_, first⟩
    exact step_upgrade_of_refusal (.unread hfound first.held pending unread)
  | stuck first pending parsed unknown =>
    have hfound := positionOfKey?_eq_some_iff.mpr ⟨_, first⟩
    refine step_upgrade_of_refusal (.unrun hfound first.held pending parsed ?_)
    exact (extended_eq_error_iff parsed).mpr ⟨_, unknown, rfl⟩
  | @extended index current result continuation next first pending parsed _ ran _ replaced =>
    have hfound := positionOfKey?_eq_some_iff.mpr ⟨_, first⟩
    let upgrading : timestamp.Upgrading key bytes :=
      ⟨index, current, continuation, result, hfound, first.held, pending, parsed, ran⟩
    rw [step_upgrade_of_upgrading upgrading, upgrading.replacedAt.unique replaced]

/-- An upgrade has an effect. -/
theorem exists_effect (timestamp : Timestamp) (key : CalendarKey) (bytes : Bytes) :
    timestamp.UpgradeEffect key bytes (timestamp.step (.upgrade key bytes)) := by
  cases hupgrade : timestamp.upgrade key bytes with
  | error e =>
    have refusal := upgrade_eq_error.mp hupgrade
    rw [step_upgrade_of_refusal refusal]
    cases refusal with
    | unfound missing => exact .unfound (positionOfKey?_eq_none_iff.mp missing)
    | final found held settled => exact .final (isFirstUnder_of_found found held) settled
    | unread found held pending unread =>
      exact .unread (isFirstUnder_of_found found held) pending unread
    | unrun found held pending parsed unrun =>
      rcases (extended_eq_error_iff parsed).mp unrun with ⟨operation, hunknown, rfl⟩
      exact .stuck (isFirstUnder_of_found found held) pending parsed hunknown
  | ok next =>
    rcases upgrade_eq_ok.mp hupgrade with ⟨upgrading, _⟩
    rw [step_upgrade_of_upgrading upgrading]
    have hfirst := isFirstUnder_of_found upgrading.found upgrading.held
    have hknown := (extended_isOk_iff upgrading.parsed).mp ⟨_, upgrading.ran⟩
    have hran : ({ upgrading.current with
        operations := upgrading.current.operations ++ upgrading.continuation }).fold
          timestamp.digestHash.bytes = .ok upgrading.result := upgrading.ran
    have hsubmitted := Attestation.submitted_of_fold hran
    exact .extended hfirst upgrading.pending upgrading.parsed hknown hran hsubmitted
      upgrading.replacedAt

/-- An upgrade has exactly one effect.  When the first attestation under its key is
pending, the continuation can be read and the chain so far holds no unknown kind,
it succeeds. -/
theorem step_upgrade_iff (timestamp : Timestamp) (key : CalendarKey) (bytes : Bytes) :
    (∀ outcome, timestamp.step (.upgrade key bytes) = outcome ↔
      timestamp.UpgradeEffect key bytes outcome) ∧
    ∀ index current continuation, timestamp.IsFirstUnder key index current →
      current.isPending = true → Chain.parse bytes = .ok continuation →
        Operation.firstUnknown? current.operations = none →
          ∃ next, timestamp.step (.upgrade key bytes) = (.ok .nothing, next) := by
  refine ⟨fun outcome => ⟨?_, step_upgrade_of_effect⟩, ?_⟩
  · rintro rfl
    exact timestamp.exists_effect key bytes
  · intro index current continuation first pending parsed known
    have hran : ∃ result, extended timestamp.digestHash current continuation = .ok result :=
      (extended_isOk_iff parsed).mpr known
    rcases hran with ⟨result, hran⟩
    have hfound := positionOfKey?_eq_some_iff.mpr ⟨current, first⟩
    exact ⟨_, step_upgrade_of_upgrading
      ⟨index, current, continuation, result, hfound, first.held, pending, parsed, hran⟩⟩

/-- A timestamp with an attestation that has no key, two promises under one key, the
first of which has an unknown kind behind it, and two more attestations: a final one
and a promise with a height that its chain does not explain. -/
def crowded : Timestamp :=
  { specimen with
    attestations :=
      [{ status := AttestationStatus.pending.code, operations := [{ kind := 9 }] },
        { status := AttestationStatus.pending.code
          operations := [.pending "a", { kind := 9 }, { kind := 10 }] },
        { status := AttestationStatus.pending.code, operations := [.pending "b"] },
        { status := AttestationStatus.bitcoin.code, operations := [.append [0x2a]] },
        { status := AttestationStatus.pending.code, submitted := 7, blockHeight := 9
          operations := [.append [0x2b], .pending "c"] }] }

/-- Each way in which an upgrade can fail, and one that succeeds, on the crowded
timestamp. -/
theorem step_upgrade_iff_crowded :
    crowded.step (.upgrade ⟨[]⟩ [0x42]) = (.error .notFound, crowded) ∧
      crowded.step (.upgrade ⟨specimenKey.bytes ++ [0x2a]⟩ [0x42]) =
        (.error .alreadyUpgraded, crowded) ∧
      crowded.step (.upgrade specimenKey [0x42]) =
        (.error (.unsupportedOperation 0x42), crowded) ∧
      crowded.step (.upgrade specimenKey [0x08]) =
        (.error (.unhandledOperation 9), crowded) ∧
      ∃ next, crowded.step (.upgrade ⟨specimenKey.bytes ++ [0x2b]⟩ [0x08]) =
        (.ok .nothing, next) := by
  have hunread : Chain.parse [0x42] = .error (.unsupportedOperation 0x42) := by
    rw [Chain.parse_cons]
    rfl
  have hparsed : Chain.parse [0x08] = .ok [.sha256] :=
    toOption_eq_some.mp (by decide +kernel)
  have ⟨hnone, hsettled, hshared, hlast⟩ :
      crowded.positionOfKey? ⟨[]⟩ = none ∧
        crowded.positionOfKey? ⟨specimenKey.bytes ++ [0x2a]⟩ = some 3 ∧
        crowded.positionOfKey? specimenKey = some 1 ∧
        crowded.positionOfKey? ⟨specimenKey.bytes ++ [0x2b]⟩ = some 4 := by
    decide +kernel
  have hmissing := positionOfKey?_eq_none_iff.mp hnone
  have hthird := isFirstUnder_of_found hsettled rfl
  have hfirst := isFirstUnder_of_found hshared rfl
  have hfourth := isFirstUnder_of_found hlast rfl
  have hunknown : Operation.firstUnknown? [.pending "a", { kind := 9 }, { kind := 10 }] =
      some { kind := 9 } := rfl
  refine ⟨?_, ?_, ?_, ?_, (step_upgrade_iff crowded _ _).2 4 _ _ hfourth rfl hparsed rfl⟩
  · exact ((step_upgrade_iff crowded _ _).1 _).mpr (.unfound hmissing)
  · exact ((step_upgrade_iff crowded _ _).1 _).mpr (.final hthird rfl)
  · exact ((step_upgrade_iff crowded _ _).1 _).mpr (.unread hfirst rfl hunread)
  · exact ((step_upgrade_iff crowded _ _).1 _).mpr (.stuck hfirst rfl hparsed hunknown)

end CalendarStamp.Timestamp
