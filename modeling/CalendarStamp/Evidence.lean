import CalendarStamp.Record
import CalendarStamp.Step

/-!
# Evidence in chains

Run to its end, a chain brings up the evidence hidden in it: a transaction that
commits to the digest, the root that this transaction was built from, and the
Merkle root of a block.  Of each sort the last evidence counts, and a sort that
the chain does not hold leaves the attestation as it was.

Main results:

- Theorem `Attestation.operations_conclude`: recording the end of a run leaves the
  chain alone.
-/

namespace CalendarStamp

/-! ## Lengths with a meaning -/

/-- A value of this many bytes put behind a transaction is its lock time, which ends it. -/
def lockTimeLength : Nat := 4

/-- A value longer than this put in front is the first part of a transaction. -/
def transactionThreshold : Nat := 64

namespace Attestation

/-! ## Taking up evidence -/

/-- Take up the evidence that a step brings: the reversed double hash of a
complete transaction, the root that a transaction commits to, or what an
attestation says. -/
def observe (attestation : Attestation) (step : Step) (before after : Bytes) : Attestation :=
  match step with
  | .append value =>
    if value.length = lockTimeLength then
      { attestation with transactionId := (Hash.doubleSha256 after).reverse }
    else
      attestation
  | .prepend value =>
    if transactionThreshold < value.length then
      { attestation with timestampMerkleRoot := before }
    else
      attestation
  | .attest operation =>
    { attestation with
      status := operation.status
      calendarUrl :=
        if operation.calendarUrl = "" then attestation.calendarUrl else operation.calendarUrl
      blockHeight :=
        if operation.blockHeight = 0 then attestation.blockHeight else operation.blockHeight }
  | _ => attestation

/-! ## Running a chain -/

/-- Run operations from an accumulator, taking up evidence; return the last
accumulator as well. -/
def runOperations (accumulator : Bytes) (attestation : Attestation) :
    List Operation → Except Error (Bytes × Attestation)
  | [] => .ok (accumulator, attestation)
  | operation :: rest => do
    let step ← Step.ofOperation operation
    let next := step.apply accumulator
    runOperations next (attestation.observe step accumulator next) rest

/-- Record the end of a run: with a block height, the reversed accumulator is
the Merkle root of that block. -/
def conclude (attestation : Attestation) (accumulator : Bytes) : Attestation :=
  if attestation.blockHeight = 0 then
    attestation
  else
    { attestation with blockMerkleRoot := accumulator.reverse }

/-- Recording the end of a run leaves the chain alone. -/
@[simp] theorem operations_conclude (attestation : Attestation) (accumulator : Bytes) :
    (attestation.conclude accumulator).operations = attestation.operations := by
  unfold conclude
  split <;> rfl

/-- Run the whole chain of an attestation and record the evidence in it. -/
def fold (initial : Bytes) (attestation : Attestation) : Except Error Attestation := do
  let (accumulator, folded) ← runOperations initial attestation attestation.operations
  return folded.conclude accumulator

end Attestation

end CalendarStamp
