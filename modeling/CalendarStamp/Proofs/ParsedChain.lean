import CalendarStamp.Chain

/-!
# Chains that were read

A chain that could be read holds only what reading one operation can give, one
operation after the other.

Main results:

- Theorem `parse_cons`: a chain is read one operation at a time.
- Theorem `isSome_kind?_of_parse`: every operation that was read has a known kind.
- Theorem `error_of_parse`: a chain fails to be read as one of its operations does.
-/

namespace CalendarStamp.Chain

open Outcome

@[simp] theorem parse_nil : parse [] = .ok [] := by
  rw [parse]

/-- A chain is read one operation at a time. -/
theorem parse_cons (tag : UInt8) (bytes : Bytes) :
    parse (tag :: bytes) =
      (readOperation tag bytes >>= fun (operation, rest) => (operation :: ·) <$> parse rest) := by
  rw [parse]
  split <;> simp_all

/-- What holds of every operation that can be read holds throughout a chain that was read. -/
theorem forall_mem_of_parse {good : Operation → Prop}
    (hread : ∀ {tag bytes operation rest},
      readOperation tag bytes = .ok (operation, rest) → good operation)
    {bytes : Bytes} {operations : List Operation} (h : parse bytes = .ok operations) :
    ∀ operation ∈ operations, good operation := by
  induction hlength : bytes.length using Nat.strongRecOn generalizing bytes operations with
  | ind length ih =>
    cases bytes with
    | nil =>
      rw [parse_nil] at h
      cases h
      simp
    | cons tag bytes =>
      rw [parse_cons] at h
      rcases bind_eq_ok.mp h with ⟨⟨first, rest⟩, hfirst, h⟩
      rcases map_eq_ok.mp h with ⟨others, hothers, rfl⟩
      have hshorter : rest.length < length := by
        have := readOperation_length hfirst
        simp only [List.length_cons] at hlength
        omega
      exact List.forall_mem_cons.mpr ⟨hread hfirst, ih _ hshorter hothers rfl⟩

/-- What holds of every error that an operation fails to be read with holds of
the error that a chain fails to be read with. -/
theorem error_of_parse (good : Error → Prop)
    (hread : ∀ {tag bytes e}, readOperation tag bytes = .error e → good e)
    {bytes : Bytes} {e : Error} (h : parse bytes = .error e) : good e := by
  induction hlength : bytes.length using Nat.strongRecOn generalizing bytes with
  | ind length ih =>
    cases bytes with
    | nil =>
      rw [parse_nil] at h
      cases h
    | cons tag bytes =>
      rw [parse_cons] at h
      rcases bind_eq_error.mp h with hfirst | ⟨⟨first, rest⟩, hfirst, h⟩
      · exact hread hfirst
      · have hshorter : rest.length < length := by
          have := readOperation_length hfirst
          simp only [List.length_cons] at hlength
          omega
        exact ih _ hshorter (map_eq_error.mp h) rfl

/-! ## Kinds -/

/-- The payload of an attestation is read as an attestation. -/
theorem kind?_of_readPayload {status : AttestationStatus} {payload : Bytes} {operation : Operation}
    (h : readPayload status payload = .ok operation) : operation.kind? = some .attestation := by
  cases status with
  | pending | bitcoin | litecoin =>
    rcases bind_eq_ok.mp h with ⟨_, _, h⟩
    simp only at h
    split at h <;> cases h
    exact OperationKind.ofCode?_code .attestation
  | invalid | unknown =>
    cases h
    exact OperationKind.ofCode?_code .attestation

/-- What follows the kind of an attestation is read as an attestation. -/
theorem kind?_of_readAttestation {bytes rest : Bytes} {operation : Operation}
    (h : readAttestation bytes = .ok (operation, rest)) :
    operation.kind? = some .attestation := by
  unfold readAttestation at h
  split at h
  · cases h
  · rcases bind_eq_ok.mp h with ⟨⟨payload, _⟩, _, h⟩
    rcases bind_eq_ok.mp h with ⟨read, hread, h⟩
    cases h
    exact kind?_of_readPayload hread

/-- What follows the byte of a kind is read as an operation of that kind. -/
theorem kind?_of_readBody {kind : OperationKind} {bytes rest : Bytes} {operation : Operation}
    (h : readBody kind bytes = .ok (operation, rest)) : operation.kind? = some kind := by
  cases kind with
  | attestation => exact kind?_of_readAttestation h
  | sha1 | ripemd160 | sha256 =>
    cases h
    exact OperationKind.ofCode?_code _
  | append | prepend =>
    rcases bind_eq_ok.mp h with ⟨⟨value, _⟩, _, h⟩
    cases h
    exact OperationKind.ofCode?_code _

/-- Every operation of a chain that was read has a known kind. -/
theorem isSome_kind?_of_parse {bytes : Bytes} {operations : List Operation}
    (h : parse bytes = .ok operations) : ∀ operation ∈ operations, operation.kind?.isSome := by
  refine forall_mem_of_parse (fun {tag bytes operation rest} hread => ?_) h
  unfold readOperation at hread
  split at hread
  · rw [kind?_of_readBody hread]
    rfl
  · cases hread

end CalendarStamp.Chain
