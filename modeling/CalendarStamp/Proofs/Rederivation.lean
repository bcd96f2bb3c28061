import CalendarStamp.Proofs.GatheredEvidence
import CalendarStamp.Proofs.Moves

/-!
# What is kept of an attestation follows from its chain

An attestation is built by running its chain again each time the chain grows,
over a record that holds what earlier runs left.  Nothing stale survives this:
as long as the digest stays, the record is what a single run of the whole chain
over an empty record gives, but for the time of submission.

Main results:

- Theorem `rederivable_of_move`: the invariant survives each single action.
- Theorem `fold_of_chain_after`: it holds in every state of a history that starts
  without attestations.
-/

namespace CalendarStamp

open Outcome

/-! ## Attestations that follow from their chain -/

/-- Whether an attestation is what a single run of its chain gives. -/
def Attestation.Rederivable (digest : Digest) (attestation : Attestation) : Prop :=
  (Attestation.ofOperations attestation.operations).fold digest.bytes =
    .ok { attestation with submitted := 0 }

namespace Attestation

/-- What a run over an empty record gives follows from its chain, whenever it is submitted. -/
theorem rederivable_of_fold {digest : Digest} {operations : List Operation}
    {attestation : Attestation} (h : (ofOperations operations).fold digest.bytes = .ok attestation)
    (submitted : UInt32) : { attestation with submitted }.Rederivable digest := by
  have hoperations : attestation.operations = operations := operations_of_fold h
  have hsubmitted : attestation.submitted = 0 := submitted_of_fold h
  subst hoperations
  exact h.trans (congrArg Except.ok (by rw [← hsubmitted]))

/-- An attestation that follows from its chain still does after the chain has grown. -/
theorem Rederivable.extended {digest : Digest} {current result : Attestation}
    {continuation : List Operation} (h : current.Rederivable digest)
    (hran : Timestamp.extended digest current continuation = .ok result) :
    result.Rederivable digest := by
  have hoperations : result.operations = current.operations ++ continuation :=
    operations_of_fold hran
  have hlate := fold_withSubmitted digest.bytes
    { current with operations := current.operations ++ continuation } 0
  rw [← Timestamp.extended, hran] at hlate
  calc
    (ofOperations result.operations).fold digest.bytes
        = (ofOperations (current.operations ++ continuation)).fold digest.bytes := by
          rw [hoperations]
    _ = Attestation.fold digest.bytes
          { current with submitted := 0, operations := current.operations ++ continuation } :=
          (fold_extended h continuation).symm
    _ = .ok { result with submitted := 0 } := hlate

end Attestation

namespace Timestamp

/-- Whether every attestation held follows from its chain. -/
def Rederivable (timestamp : Timestamp) : Prop :=
  ∀ attestation ∈ timestamp.attestations, attestation.Rederivable timestamp.digestHash

/-! ## Histories that keep the context -/

/-- Whether an action adds an attestation as it is given. -/
def Action.addsAttestation : Action → Bool
  | .addAttestation _ _ => true
  | _ => false

/-- Whether, from the first attestation on, no action of a history changes
anything that the digest depends on. -/
def KeepsContext (timestamp : Timestamp) : List Action → Prop
  | [] => True
  | action :: rest =>
    (timestamp.isStamped = true → (timestamp.step action).2.context = timestamp.context) ∧
      KeepsContext (timestamp.step action).2 rest

instance decidableKeepsContext (timestamp : Timestamp) :
    (actions : List Action) → Decidable (timestamp.KeepsContext actions)
  | [] => .isTrue trivial
  | action :: rest =>
    have := decidableKeepsContext (timestamp.step action).2 rest
    inferInstanceAs (Decidable
      ((timestamp.isStamped = true → (timestamp.step action).2.context = timestamp.context) ∧
        KeepsContext (timestamp.step action).2 rest))

/-! ## The invariant -/

/-- A single action keeps attestations in agreement with their chains, unless it
adds one as it is given or changes the context of those that are there. -/
theorem rederivable_of_move {timestamp next : Timestamp} {action : Action}
    (derived : action.addsAttestation = false)
    (kept : timestamp.isStamped = true → next.context = timestamp.context)
    (move : Move timestamp action next) (h : timestamp.Rederivable) : next.Rederivable := by
  cases move with
  | idle => exact h
  | setContext sets attestations hash created fixed =>
    intro attestation hmem
    rw [attestations] at hmem
    have hstamped : timestamp.isStamped = true :=
      isStamped_eq_true.mpr (List.ne_nil_of_mem hmem)
    rw [digestHash_congr (kept hstamped)]
    exact h attestation hmem
  | attach now new => cases derived
  | takeIn now parsed ran new =>
    intro attestation hmem
    rcases List.mem_append.mp hmem with hmem | hmem
    · exact h attestation hmem
    · cases List.mem_singleton.mp hmem
      exact Attestation.rederivable_of_fold ran now
  | upgrade upgrading =>
    intro attestation hmem
    rcases List.mem_or_eq_of_mem_set hmem with hmem | rfl
    · exact h attestation hmem
    · exact (h _ (List.mem_of_getElem? upgrading.held)).extended upgrading.ran

/-- Answers keep attestations in agreement with their chains. -/
theorem rederivable_after_answers {timestamp : Timestamp} {actions : List Action}
    (answers : ∀ action ∈ actions, action.isAnswer = true) (h : timestamp.Rederivable) :
    (timestamp.after actions).Rederivable := by
  refine after_induction (fun action => action.isAnswer = true) Rederivable
    (fun _ answer => answer) ?_ answers h
  intro reached next action answer move h
  have hderived : action.addsAttestation = false := by
    cases action <;> first | rfl | cases answer
  exact rederivable_of_move hderived (fun _ => context_of_move answer move) move h

/-- An action keeps attestations in agreement with their chains, unless it adds
one as it is given or changes the context of those that are there. -/
theorem rederivable_step {timestamp : Timestamp} {action : Action}
    (derived : action.addsAttestation = false)
    (kept : timestamp.isStamped = true → (timestamp.step action).2.context = timestamp.context)
    (h : timestamp.Rederivable) : (timestamp.step action).2.Rederivable := by
  by_cases hanswer : action.isAnswer = true
  · have hafter : (timestamp.after [action]).Rederivable :=
      rederivable_after_answers (by simpa using hanswer) h
    exact hafter
  · have hsingle : action.isBatch = false := by
      cases action <;> first | rfl | exact absurd rfl hanswer
    exact rederivable_of_move derived kept (timestamp.move_step hsingle) h

/-- A history that keeps the context keeps attestations in agreement with their
chains. -/
theorem rederivable_after {timestamp : Timestamp} {actions : List Action}
    (derived : ∀ action ∈ actions, action.addsAttestation = false)
    (kept : timestamp.KeepsContext actions) (h : timestamp.Rederivable) :
    (timestamp.after actions).Rederivable := by
  induction actions generalizing timestamp with
  | nil => exact h
  | cons action rest ih =>
    rcases List.forall_mem_cons.mp derived with ⟨hderived, hrest⟩
    exact ih hrest kept.2 (rederivable_step hderived kept.1 h)

/-- In every state of a history that starts without attestations and keeps the
context from the first one on, each attestation that answers brought up is what
a single run of its chain over an empty record gives, but for the time of its
submission. -/
theorem fold_of_chain_after {timestamp : Timestamp} (unstamped : timestamp.attestations = [])
    {actions : List Action} (derived : ∀ action ∈ actions, action.addsAttestation = false)
    (kept : timestamp.KeepsContext actions) :
    ∀ attestation ∈ (timestamp.after actions).attestations,
      (Attestation.ofOperations attestation.operations).fold
          (timestamp.after actions).digestHash.bytes =
        .ok { attestation with submitted := 0 } := by
  have hstart : timestamp.Rederivable := by
    intro attestation hmem
    simp [unstamped] at hmem
  exact rederivable_after derived kept hstart

/-! ## A history with an upgrade -/

/-- A new timestamp of one byte. -/
def specimen : Timestamp :=
  { hash := [0x2a], nonce := List.replicate 16 0, hash_ne_nil := List.cons_ne_nil _ _ }

/-- The key under which a calendar is asked that attests the new timestamp directly. -/
def specimenKey : CalendarKey := ⟨specimen.digestHash.bytes⟩

/-- The answer by which a calendar with a one-letter address promises an attestation. -/
def promise (letter : UInt8) : Bytes :=
  [0x00, 0x83, 0xdf, 0xe3, 0x0d, 0x2e, 0xf9, 0x0c, 0x8e, 0x02, 0x01, letter]

/-- The continuation that leads over a hash to the first block of Bitcoin. -/
def anchorage : Bytes :=
  [0x08, 0x00, 0x05, 0x88, 0x96, 0x0d, 0x73, 0xd7, 0x19, 0x01, 0x01, 0x01]

/-- Setting a source, taking in a promise and fulfilling it. -/
def fulfilment : List Action :=
  [.setSource "report", .importResponse 7 (promise 0x61),
    .upgrade ⟨(specimen.setSource "report").digestHash.bytes⟩ anchorage]

/-- After a promise and its fulfilment the one attestation is final, and it is what
running its chain makes of it. -/
theorem fold_of_chain_after_fulfilment :
    specimen.attestations = [] ∧
      (∀ action ∈ fulfilment, action.addsAttestation = false) ∧
      specimen.KeepsContext fulfilment ∧
      (specimen.after fulfilment).attestations.map Attestation.status =
        [AttestationStatus.bitcoin.code] ∧
      ∀ attestation ∈ (specimen.after fulfilment).attestations,
        (Attestation.ofOperations attestation.operations).fold
            (specimen.after fulfilment).digestHash.bytes =
          .ok { attestation with submitted := 0 } :=
  ⟨rfl, by decide, by decide +kernel, by decide +kernel,
    fold_of_chain_after rfl (by decide) (by decide +kernel)⟩

end Timestamp

end CalendarStamp
