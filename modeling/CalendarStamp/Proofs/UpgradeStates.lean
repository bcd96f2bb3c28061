import CalendarStamp.Proofs.ParsedChain
import CalendarStamp.Proofs.StableKeys

/-!
# What an upgrade does to the state of an attestation

A pending attestation waits for the rest of its chain.  Whether an upgrade ends
the waiting is up to what the calendar sends: it does when the continuation
attests and its last attestation is not pending.  Then the attestation is final,
and its key is refused from then on.  A continuation that does not attest, or
that ends in another promise, is accepted as well, and the key stays open.

Main results:

- Theorem `isPending_result`: which continuations leave an attestation pending.
- Theorem `extended_eq_error_iff`: which chains cannot be run further.
- Theorem `upgrade_refused_after`: the key of a final attestation is refused.
- Theorem `upgrade_isOk_iff`: the key of a pending attestation takes whatever can
  be read.
- Theorem `upgrade_settles_iff`: what a successful upgrade means for those after it.
-/

namespace CalendarStamp

open Outcome

namespace Timestamp

/-! ## Continuations that settle -/

/-- Whether a continuation settles what was pending: it attests, and its last
attestation is not pending. -/
def settles (continuation : List Operation) : Bool :=
  match Operation.lastAttestation? continuation with
  | some operation => operation.status ≠ AttestationStatus.pending.code
  | none => false

/-- An upgrade leaves an attestation pending unless the continuation settles it. -/
theorem isPending_result {timestamp : Timestamp} {key : CalendarKey} {bytes : Bytes}
    (h : timestamp.Rederivable) (upgrading : timestamp.Upgrading key bytes) :
    upgrading.result.isPending = !settles upgrading.continuation := by
  have hcurrent := Attestation.status_of_rederivable (h _ (List.mem_of_getElem? upgrading.held))
  have hresult := Attestation.status_of_fold upgrading.ran
  have hpending : upgrading.current.status = AttestationStatus.pending.code := by
    simpa [Attestation.isPending] using upgrading.pending
  rw [Operation.lastAttestation?_append] at hresult
  unfold settles Attestation.isPending
  cases hlast : Operation.lastAttestation? upgrading.continuation with
  | some operation =>
    rw [hlast] at hresult
    simp [hresult]
  | none =>
    -- Nothing new is attested, so the old chain decides as it did before.
    have hsame : upgrading.result.status = upgrading.current.status := by
      rw [hresult, hlast, Option.none_or]
      cases hold : Operation.lastAttestation? upgrading.current.operations with
      | none => rfl
      | some operation =>
        rw [hcurrent, hold]
        rfl
    simp [hsame, hpending]

/-! ## Keys that are refused and keys that are open -/

/-- Once the attestation under a key is final, the key is refused, whatever
answers are taken in before it is tried again. -/
theorem upgrade_refused_after {timestamp : Timestamp} {key : CalendarKey} {index : Nat}
    {attestation : Attestation} (h : timestamp.Rederivable)
    (hfound : timestamp.positionOfKey? key = some index)
    (hheld : timestamp.attestations[index]? = some attestation)
    (hfinal : attestation.isPending = false) {between : List Action}
    (answers : ∀ action ∈ between, action.isAnswer = true) (bytes : Bytes) :
    (timestamp.after between).upgrade key bytes = .error .alreadyUpgraded := by
  have hgrows := grows_after timestamp between
  have hdigest := digestHash_congr (context_after timestamp answers)
  rcases hgrows.attestations hheld with ⟨grown, hgrown, hone⟩
  have hsame := hone.final hfinal
  subst hsame
  exact upgrade_of_final (positionOfKey?_of_grows h hgrows hdigest hfound) hgrown hfinal bytes

/-- What was read adds no unknown kind to a chain. -/
theorem firstUnknown?_extended {bytes : Bytes} {continuation : List Operation}
    (parsed : Chain.parse bytes = .ok continuation) (operations : List Operation) :
    Operation.firstUnknown? (operations ++ continuation) = Operation.firstUnknown? operations := by
  have hknown := Operation.firstUnknown?_eq_none_iff.mpr (Chain.isSome_kind?_of_parse parsed)
  rw [Operation.firstUnknown?_append, hknown, Option.or_none]

/-- A chain that was extended by what was read fails to run as the chain did before. -/
theorem extended_eq_error_iff {digest : Digest} {current : Attestation} {bytes : Bytes}
    {continuation : List Operation} (parsed : Chain.parse bytes = .ok continuation) {e : Error} :
    extended digest current continuation = .error e ↔
      ∃ operation, Operation.firstUnknown? current.operations = some operation ∧
        e = .unhandledOperation operation.kind := by
  rw [extended, Attestation.fold_eq_error_iff, firstUnknown?_extended parsed]

/-- A chain that was extended by what was read can be run when the kinds in it before
are known. -/
theorem extended_isOk_iff {digest : Digest} {current : Attestation} {bytes : Bytes}
    {continuation : List Operation} (parsed : Chain.parse bytes = .ok continuation) :
    (∃ result, extended digest current continuation = .ok result) ↔
      Operation.firstUnknown? current.operations = none := by
  rw [extended, Attestation.fold_isOk_iff, ← Operation.firstUnknown?_eq_none_iff,
    firstUnknown?_extended parsed]

/-- The longer chain of an attestation that follows from its chain can be run. -/
theorem extended_isOk {digest : Digest} {current : Attestation} {bytes : Bytes}
    {continuation : List Operation} (h : current.Rederivable digest)
    (hparsed : Chain.parse bytes = .ok continuation) :
    ∃ result, extended digest current continuation = .ok result := by
  have hcurrent := (Attestation.fold_isOk_iff digest.bytes _).mp ⟨_, h⟩
  exact (extended_isOk_iff hparsed).mpr (Operation.firstUnknown?_eq_none_iff.mpr hcurrent)

/-- An upgrade of a pending attestation succeeds with whatever can be read. -/
theorem upgrade_isOk_iff {timestamp : Timestamp} {key : CalendarKey} {index : Nat}
    {attestation : Attestation} (h : timestamp.Rederivable)
    (hfound : timestamp.positionOfKey? key = some index)
    (hheld : timestamp.attestations[index]? = some attestation)
    (hpending : attestation.isPending = true) (bytes : Bytes) :
    (∃ next, timestamp.upgrade key bytes = .ok next) ↔
      ∃ operations, Chain.parse bytes = .ok operations := by
  constructor
  · rintro ⟨next, hnext⟩
    rcases upgrade_eq_ok.mp hnext with ⟨upgrading, _⟩
    exact ⟨upgrading.continuation, upgrading.parsed⟩
  · rintro ⟨continuation, hparsed⟩
    rcases extended_isOk (h _ (List.mem_of_getElem? hheld)) hparsed with ⟨result, hran⟩
    exact ⟨_, upgrade_eq_ok.mpr
      ⟨⟨index, attestation, continuation, result, hfound, hheld, hpending, hparsed, hran⟩, rfl⟩⟩

/-! ## The state machine -/

/-- In every state of a history of answers that starts without attestations, an
upgrade that succeeds makes the attestation final exactly when the continuation
settles it.  Then the same key is refused from then on, whatever answers are
taken in between, and the timestamp is left as it is; else the key takes again
whatever can be read. -/
theorem upgrade_settles_iff {timestamp : Timestamp} (unstamped : timestamp.attestations = [])
    {before : List Action} (answers : ∀ action ∈ before, action.isAnswer = true)
    {key : CalendarKey} {bytes : Bytes} {next : Timestamp}
    (upgraded : (timestamp.after before).upgrade key bytes = .ok next) :
    ∃ upgrading : (timestamp.after before).Upgrading key bytes,
      upgrading.next = next ∧
      (upgrading.result.isPending = false ↔ settles upgrading.continuation = true) ∧
      (settles upgrading.continuation = true →
        ∀ between : List Action, (∀ action ∈ between, action.isAnswer = true) →
          ∀ more : Bytes, (next.after between).step (.upgrade key more) =
            (.error .alreadyUpgraded, next.after between)) ∧
      (settles upgrading.continuation = false →
        ∀ more : Bytes, (∃ again, next.upgrade key more = .ok again) ↔
          ∃ operations, Chain.parse more = .ok operations) := by
  have hbefore : (timestamp.after before).Rederivable := by
    refine rederivable_after_answers answers ?_
    intro attestation hmem
    simp [unstamped] at hmem
  rcases upgrade_eq_ok.mp upgraded with ⟨upgrading, rfl⟩
  have hmove : Move (timestamp.after before) (.upgrade key bytes) upgrading.next :=
    .upgrade upgrading
  have hnext : upgrading.next.Rederivable :=
    rederivable_of_move rfl (fun _ => context_of_move rfl hmove) hmove hbefore
  have hfound : upgrading.next.positionOfKey? key = some upgrading.index :=
    positionOfKey?_of_grows hbefore (grows_upgrade upgrading) rfl upgrading.found
  have hstate := isPending_result hbefore upgrading
  refine ⟨upgrading, rfl, by simp [hstate], ?_, ?_⟩
  · intro hsettles between hbetween more
    have hfinal : upgrading.result.isPending = false := by simp [hstate, hsettles]
    have hrefused :=
      upgrade_refused_after hnext hfound upgrading.getElem?_next hfinal hbetween more
    exact step_upgrade_of_error hrefused
  · intro hopen more
    have hpending : upgrading.result.isPending = true := by simp [hstate, hopen]
    exact upgrade_isOk_iff hnext hfound upgrading.getElem?_next hpending more

/-- An upgrade of a promise by a chain that ends in a block settles it. -/
theorem upgrade_settles_specimen :
    specimen.attestations = [] ∧
      (∀ action ∈ [Action.importResponse 7 (promise 0x61)], action.isAnswer = true) ∧
      ∃ next, (specimen.after [.importResponse 7 (promise 0x61)]).upgrade specimenKey anchorage =
          .ok next ∧
        ∃ upgrading :
            (specimen.after [.importResponse 7 (promise 0x61)]).Upgrading specimenKey anchorage,
          upgrading.next = next ∧
          (upgrading.result.isPending = false ↔ settles upgrading.continuation = true) ∧
          (settles upgrading.continuation = true →
            ∀ between : List Action, (∀ action ∈ between, action.isAnswer = true) →
              ∀ more : Bytes, (next.after between).step (.upgrade specimenKey more) =
                (.error .alreadyUpgraded, next.after between)) ∧
          (settles upgrading.continuation = false →
            ∀ more : Bytes, (∃ again, next.upgrade specimenKey more = .ok again) ↔
              ∃ operations, Chain.parse more = .ok operations) := by
  have hok : ((specimen.after [.importResponse 7 (promise 0x61)]).upgrade specimenKey
      anchorage).toOption.isSome = true := by
    decide +kernel
  rcases Option.isSome_iff_exists.mp hok with ⟨next, hnext⟩
  have hupgraded := toOption_eq_some.mp hnext
  have hanswers : ∀ action ∈ [Action.importResponse 7 (promise 0x61)], action.isAnswer = true := by
    decide
  exact ⟨rfl, hanswers, next, hupgraded, upgrade_settles_iff rfl hanswers hupgraded⟩

/-- A continuation of one hash leaves a promise pending, and the same key takes
it a second time. -/
theorem upgrade_by_hash_stays_open :
    create 0 [0x2a] ⟨List.replicate 16 0, rfl⟩ = .ok specimen ∧
      (specimen.results [.importResponse 7 (promise 0x61), .upgrade specimenKey [0x08],
          .upgrade specimenKey [0x08]]).map Except.toOption =
        [some (.added true), some .nothing, some .nothing] ∧
      (specimen.after [.importResponse 7 (promise 0x61),
          .upgrade specimenKey [0x08]]).attestations.map Attestation.isPending = [true] := by
  refine ⟨rfl, ?_, ?_⟩ <;> decide +kernel

end Timestamp

end CalendarStamp
