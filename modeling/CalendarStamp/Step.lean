import CalendarStamp.Digest
import CalendarStamp.Hash.Ripemd160
import CalendarStamp.Hash.Sha1
import CalendarStamp.Hash.Sha256
import CalendarStamp.Operation

/-!
# Steps of a chain

Running a chain carries an accumulator from step to step.  What the accumulator
holds at the first attestation is the key under which the calendar looks up the
timestamp, so the key depends on the operations before that attestation only.

Main results:

- Theorem `Step.apply_ne_nil`: no step turns bytes into the empty string.
- Theorem `deriveKey_attest`: an attestation ends the derivation of the key.
-/

namespace CalendarStamp

/-! ## Steps -/

/-- An operation of known kind with what it needs. -/
inductive Step
  | sha1
  | ripemd160
  | sha256
  | append (value : Bytes)
  | prepend (value : Bytes)
  | attest (operation : Operation)
deriving DecidableEq

namespace Step

/-- The step that an operation stands for. -/
def ofOperation (operation : Operation) : Except Error Step :=
  match operation.kind? with
  | none => .error (.unhandledOperation operation.kind)
  | some .sha1 => .ok sha1
  | some .ripemd160 => .ok ripemd160
  | some .sha256 => .ok sha256
  | some .append => .ok (append operation.value)
  | some .prepend => .ok (prepend operation.value)
  | some .attestation => .ok (attest operation)

/-- What a step makes of the accumulator. -/
def apply (accumulator : Bytes) : Step → Bytes
  | sha1 => Hash.sha1 accumulator
  | ripemd160 => Hash.ripemd160 accumulator
  | sha256 => Hash.sha256 accumulator
  | append value => accumulator ++ value
  | prepend value => value ++ accumulator
  | attest _ => accumulator

/-- No step turns bytes into the empty string. -/
theorem apply_ne_nil {accumulator : Bytes} (h : accumulator ≠ []) (step : Step) :
    step.apply accumulator ≠ [] := by
  cases step with
  | sha1 => exact List.ne_nil_of_length_pos (by simp [apply])
  | ripemd160 => exact List.ne_nil_of_length_pos (by simp [apply])
  | sha256 => exact List.ne_nil_of_length_pos (by simp [apply])
  | append value => simp [apply, h]
  | prepend value => simp [apply, h]
  | attest operation => exact h

end Step

/-! ## The lookup key -/

open Outcome

/-- Run operations from an accumulator to the first attestation. -/
def deriveKey (accumulator : Bytes) : List Operation → Except Error CalendarKey
  | [] => .ok ⟨accumulator⟩
  | operation :: rest => do
    match ← Step.ofOperation operation with
    | .attest _ => return ⟨accumulator⟩
    | step => deriveKey (step.apply accumulator) rest

theorem deriveKey_nil (accumulator : Bytes) : deriveKey accumulator [] = .ok ⟨accumulator⟩ := rfl

/-- An attestation ends the derivation: what was reached is the key. -/
theorem deriveKey_attest {operation attested : Operation}
    (h : Step.ofOperation operation = .ok (.attest attested)) (accumulator : Bytes)
    (rest : List Operation) :
    deriveKey accumulator (operation :: rest) = .ok ⟨accumulator⟩ := by
  simp [deriveKey, h]

/-- An operation of unknown kind makes the derivation fail. -/
theorem deriveKey_unknown {operation : Operation} {e : Error}
    (h : Step.ofOperation operation = .error e) (accumulator : Bytes) (rest : List Operation) :
    deriveKey accumulator (operation :: rest) = .error e := by
  simp [deriveKey, h]

end CalendarStamp
