import CalendarStamp.Proofs.GatheredEvidence
import CalendarStamp.Proofs.Moves

/-!
# Histories only append

Whatever is done with a timestamp, in whatever order and whether or not it
succeeds, what calendars have said stays.  An attestation keeps its position and
its time of submission, its chain grows at the end, and once it is no longer
pending it stays as it is.  What the digest commits to is fixed in part at once
and in part with the first attestation.

Main results:

- Theorem `grows_of_move`: a single action lets a timestamp grow.
- Theorem `grows_along_history`: so does everything between two points of a history.
-/

namespace CalendarStamp

open Outcome

/-! ## Growing attestations -/

/-- How an attestation may change over time. -/
structure Attestation.Grows (earlier later : Attestation) : Prop where
  operations : earlier.operations <+: later.operations
  submitted : later.submitted = earlier.submitted
  final : earlier.isPending = false → later = earlier

namespace Attestation.Grows

theorem refl (attestation : Attestation) : attestation.Grows attestation :=
  ⟨List.prefix_refl _, rfl, fun _ => rfl⟩

theorem trans {first second third : Attestation} (h : first.Grows second)
    (h' : second.Grows third) : first.Grows third where
  operations := h.operations.trans h'.operations
  submitted := h'.submitted.trans h.submitted
  final hfinal := by
    have hsecond := h.final hfinal
    rw [h'.final (hsecond ▸ hfinal), hsecond]

end Attestation.Grows

/-! ## Growing timestamps -/

namespace Timestamp

/-- How a timestamp may change over time. -/
structure Grows (earlier later : Timestamp) : Prop where
  hash : later.hash = earlier.hash
  created : later.created = earlier.created
  fixed : earlier.isStamped = true →
    later.identity = earlier.identity ∧ later.location = earlier.location
  attestations : ∀ {index : Nat} {attestation : Attestation},
    earlier.attestations[index]? = some attestation →
      ∃ grown, later.attestations[index]? = some grown ∧ attestation.Grows grown

namespace Grows

theorem refl (timestamp : Timestamp) : timestamp.Grows timestamp :=
  ⟨rfl, rfl, fun _ => ⟨rfl, rfl⟩, fun h => ⟨_, h, .refl _⟩⟩

/-- A stamped timestamp stays stamped. -/
theorem isStamped {earlier later : Timestamp} (h : earlier.Grows later)
    (hstamped : earlier.isStamped = true) : later.isStamped = true := by
  rw [isStamped_eq_true] at hstamped ⊢
  rcases List.exists_cons_of_ne_nil hstamped with ⟨attestation, rest, hcons⟩
  have hfirst : earlier.attestations[0]? = some attestation := by
    rw [hcons]
    rfl
  rcases h.attestations hfirst with ⟨grown, hgrown, _⟩
  intro hnil
  simp [hnil] at hgrown

theorem trans {first second third : Timestamp} (h : first.Grows second)
    (h' : second.Grows third) : first.Grows third where
  hash := h'.hash.trans h.hash
  created := h'.created.trans h.created
  fixed hstamped := by
    rcases h.fixed hstamped with ⟨hidentity, hlocation⟩
    rcases h'.fixed (h.isStamped hstamped) with ⟨hidentity', hlocation'⟩
    exact ⟨hidentity'.trans hidentity, hlocation'.trans hlocation⟩
  attestations hheld := by
    rcases h.attestations hheld with ⟨middle, hmiddle, hgrows⟩
    rcases h'.attestations hmiddle with ⟨last, hlast, hgrows'⟩
    exact ⟨last, hlast, hgrows.trans hgrows'⟩

end Grows

/-! ## Moves let a timestamp grow -/

/-- Attaching an attestation leaves those before it where they are. -/
theorem grows_attach (timestamp : Timestamp) (now : UInt32) (attestation : Attestation) :
    timestamp.Grows (timestamp.attach now attestation) where
  hash := rfl
  created := rfl
  fixed _ := ⟨rfl, rfl⟩
  attestations {index held} hheld := by
    refine ⟨held, ?_, .refl held⟩
    rw [attestations_attach, List.getElem?_append_left (List.getElem?_eq_some_iff.mp hheld).1,
      hheld]

/-- A longer chain that was run belongs to the attestation as before. -/
theorem grows_of_extended {digest : Digest} {current result : Attestation}
    {continuation : List Operation} (hpending : current.isPending = true)
    (hran : extended digest current continuation = .ok result) : current.Grows result where
  operations := by
    rw [Attestation.operations_of_fold hran]
    exact List.prefix_append _ _
  submitted := by
    have hsubmitted := Attestation.submitted_of_fold hran
    exact hsubmitted
  final hfinal := by simp [hpending] at hfinal

/-- An upgrade leaves all other attestations alone. -/
theorem grows_upgrade {timestamp : Timestamp} {key : CalendarKey} {bytes : Bytes}
    (upgrading : timestamp.Upgrading key bytes) : timestamp.Grows upgrading.next where
  hash := rfl
  created := rfl
  fixed _ := ⟨rfl, rfl⟩
  attestations {index held} hheld := by
    have hlt := (List.getElem?_eq_some_iff.mp hheld).1
    by_cases hindex : upgrading.index = index
    · subst hindex
      have hcurrent : held = upgrading.current :=
        Option.some.inj (hheld.symm.trans upgrading.held)
      refine ⟨upgrading.result, List.getElem?_set_self hlt, ?_⟩
      rw [hcurrent]
      exact grows_of_extended upgrading.pending upgrading.ran
    · refine ⟨held, ?_, .refl held⟩
      rw [Upgrading.next, attestations_withAttestations, List.getElem?_set_ne hindex, hheld]

/-- A single action lets a timestamp grow. -/
theorem grows_of_move {timestamp next : Timestamp} {action : Action}
    (move : Move timestamp action next) : timestamp.Grows next := by
  cases move with
  | idle => exact .refl timestamp
  | setContext sets attestations hash created fixed =>
    exact ⟨hash, created, fixed, fun hheld => ⟨_, attestations ▸ hheld, .refl _⟩⟩
  | attach now new => exact grows_attach timestamp now _
  | takeIn now parsed ran new => exact grows_attach timestamp now _
  | upgrade upgrading => exact grows_upgrade upgrading

/-- A history lets a timestamp grow. -/
theorem grows_after (timestamp : Timestamp) (actions : List Action) :
    timestamp.Grows (timestamp.after actions) := by
  refine after_induction (fun _ => True) timestamp.Grows (fun _ _ => trivial) ?_
    (fun _ _ => trivial) (.refl timestamp)
  intro reached next action _ move hgrows
  exact hgrows.trans (grows_of_move move)

/-- Between any two points of a history, no attestation is removed or moved, its
chain grows at the end only, its time of submission stays, and once it is not
pending all of it stays; the hash and the time of creation stay, and from the
first attestation on so do identity and location. -/
theorem grows_along_history (timestamp : Timestamp) (before between : List Action) :
    (timestamp.after before).Grows (timestamp.after (before ++ between)) := by
  rw [after_append]
  exact grows_after _ between

end Timestamp

end CalendarStamp
