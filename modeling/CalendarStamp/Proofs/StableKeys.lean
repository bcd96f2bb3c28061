import CalendarStamp.Proofs.AppendOnly
import CalendarStamp.Proofs.Rederivation

/-!
# Lookup keys that stay

The lookup key of an attestation is derived from its chain each time it is
needed, and upgrades append to that very chain.  The key stays the same all the
same: an attestation that is pending says so because its chain attests, and what
follows the first attestation in a chain does not touch the key.

Main results:

- Theorem `Attestation.attested_of_pending`: the chain of a pending attestation
  attests.
- Theorem `Attestation.deriveKey_of_grows`: an attestation that grows keeps its key.
- Theorem `positionOfKey?_of_grows`: a key is found where it was found before.
-/

namespace CalendarStamp

open Outcome

/-! ## One attestation -/

namespace Attestation

/-- The status of an attestation that follows from its chain is that of the last
attestation in it. -/
theorem status_of_rederivable {digest : Digest} {attestation : Attestation}
    (h : attestation.Rederivable digest) :
    attestation.status =
      ((Operation.lastAttestation? attestation.operations).map Operation.status).getD 0 :=
  status_of_fold h

/-- The chain of a pending attestation attests, since nothing else could have
made it pending. -/
theorem attested_of_pending {digest : Digest} {attestation : Attestation}
    (h : attestation.Rederivable digest) (hpending : attestation.isPending = true) :
    ∃ operation ∈ attestation.operations, operation.isAttestation := by
  have hstatus := status_of_rederivable h
  cases hlast : Operation.lastAttestation? attestation.operations with
  | none =>
    rw [hlast] at hstatus
    simp [isPending, hstatus, AttestationStatus.code] at hpending
  | some operation =>
    have hmem := List.mem_reverse.mp (List.mem_of_find?_eq_some hlast)
    exact ⟨operation, hmem, List.find?_some hlast⟩

/-- An attestation that grows keeps its lookup key. -/
theorem deriveKey_of_grows {digest : Digest} {earlier later : Attestation}
    (h : earlier.Rederivable digest) (hgrows : earlier.Grows later) :
    deriveKey digest.bytes later.operations = deriveKey digest.bytes earlier.operations := by
  by_cases hpending : earlier.isPending = true
  · rcases hgrows.operations with ⟨more, hmore⟩
    rw [← hmore, deriveKey_append_of_attested (attested_of_pending h hpending)]
  · rw [hgrows.final (by simpa using hpending)]

end Attestation

/-! ## All attestations of a timestamp -/

namespace Timestamp

/-- Attestations with the same key are looked up under the same keys. -/
theorem hasKey_congr {digest : Digest} {a b : Attestation}
    (h : deriveKey digest.bytes a.operations = deriveKey digest.bytes b.operations)
    (key : CalendarKey) : hasKey digest key a = hasKey digest key b := by
  unfold hasKey
  rw [h]

/-- A key is found where it was found before, as long as the digest stays. -/
theorem positionOfKey?_of_grows {earlier later : Timestamp} {key : CalendarKey} {index : Nat}
    (h : earlier.Rederivable) (hgrows : earlier.Grows later)
    (hdigest : later.digestHash = earlier.digestHash)
    (hfound : earlier.positionOfKey? key = some index) :
    later.positionOfKey? key = some index := by
  have hsame : ∀ {position : Nat} (hlt : position < earlier.attestations.length),
      ∃ hlt' : position < later.attestations.length,
        hasKey later.digestHash key later.attestations[position] =
          hasKey earlier.digestHash key earlier.attestations[position] := by
    intro position hlt
    rcases hgrows.attestations (List.getElem?_eq_getElem hlt) with ⟨grown, hgrown, hone⟩
    rcases List.getElem?_eq_some_iff.mp hgrown with ⟨hlt', rfl⟩
    have hrederivable := h _ (List.getElem_mem hlt)
    refine ⟨hlt', ?_⟩
    rw [hdigest]
    exact hasKey_congr (Attestation.deriveKey_of_grows hrederivable hone) key
  rcases List.findIdx?_eq_some_iff_getElem.mp hfound with ⟨hlt, hkey, hfirst⟩
  rcases hsame hlt with ⟨hlt', hthere⟩
  refine List.findIdx?_eq_some_iff_getElem.mpr ⟨hlt', ?_, ?_⟩
  · rw [hthere]
    exact hkey
  · intro position hbefore
    rcases hsame (Nat.lt_trans hbefore hlt) with ⟨_, hother⟩
    rw [hother]
    exact hfirst position hbefore

end Timestamp

end CalendarStamp
