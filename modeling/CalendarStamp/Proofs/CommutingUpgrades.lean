import CalendarStamp.Proofs.LookupReplies

/-!
# Upgrades that commute

Each upgrade looks for its attestation anew, among chains and statuses that
other upgrades may just have rewritten.  As long as the chain of every pending
attestation attests, this makes no difference: an upgrade appends behind the
first attestation of a chain and so changes no key, and two keys never lead to
one attestation.  Upgrades under different keys may then be carried out in any
order.

Main results:

- Theorem `agreeOn_upgrade`: an upgrade changes nothing that an upgrade under
  another key looks at.
- Theorem `upgrades_commute`: two upgrades under different keys commute.
- Theorem `step_upgrade_fst_after_upgrades`: an upgrade succeeds or fails as it
  does at once, however many upgrades under other keys come first.
- Theorem `after_upgrades_of_perm`: upgrades under different keys may be rearranged.
-/

namespace CalendarStamp.Timestamp

open Outcome

variable {timestamp : Timestamp} {key other : CalendarKey} {bytes more : Bytes}

/-! ## What an upgrade looks at -/

/-- Whether two timestamps agree in all that an upgrade under a key looks at. -/
structure AgreeOn (key : CalendarKey) (a b : Timestamp) : Prop where
  digest : b.digestHash = a.digestHash
  position : b.positionOfKey? key = a.positionOfKey? key
  held : ∀ {index : Nat}, a.positionOfKey? key = some index →
    b.attestations[index]? = a.attestations[index]?

namespace AgreeOn

theorem refl (key : CalendarKey) (timestamp : Timestamp) : AgreeOn key timestamp timestamp :=
  ⟨rfl, rfl, fun _ => rfl⟩

theorem trans {a b c : Timestamp} (h : AgreeOn key a b) (h' : AgreeOn key b c) :
    AgreeOn key a c where
  digest := h'.digest.trans h.digest
  position := h'.position.trans h.position
  held hfound := (h'.held (h.position.trans hfound)).trans (h.held hfound)

end AgreeOn

/-- An upgrade that succeeds also succeeds where the timestamp agrees, and puts
the same attestation at the same position. -/
def Upgrading.carried {a b : Timestamp} (upgrading : a.Upgrading key bytes)
    (h : AgreeOn key a b) : b.Upgrading key bytes where
  index := upgrading.index
  current := upgrading.current
  continuation := upgrading.continuation
  result := upgrading.result
  found := h.position.trans upgrading.found
  held := (h.held upgrading.found).trans upgrading.held
  pending := upgrading.pending
  parsed := upgrading.parsed
  ran := by rw [h.digest, upgrading.ran]

/-- An upgrade that fails also fails where the timestamp agrees, with the same error. -/
theorem Refusal.carried {a b : Timestamp} {e : Error} (refusal : a.Refusal key bytes e)
    (h : AgreeOn key a b) : b.Refusal key bytes e := by
  cases refusal with
  | unfound missing => exact .unfound (h.position.trans missing)
  | final found held settled =>
    exact .final (h.position.trans found) ((h.held found).trans held) settled
  | unread found held pending unread =>
    exact .unread (h.position.trans found) ((h.held found).trans held) pending unread
  | unrun found held pending parsed unrun =>
    refine .unrun (h.position.trans found) ((h.held found).trans held) pending parsed ?_
    rw [h.digest, unrun]

/-! ## Upgrades under other keys -/

/-- Different keys lead to different attestations. -/
theorem positionOfKey?_ne_index (distinct : key ≠ other)
    (upgrading : timestamp.Upgrading key bytes) :
    timestamp.positionOfKey? other ≠ some upgrading.index := by
  intro hother
  have hkey := calendarKey_of_found upgrading.found upgrading.held
  rw [calendarKey_of_found hother upgrading.held] at hkey
  cases hkey
  exact distinct rfl

/-- An upgrade changes nothing that an upgrade under another key looks at. -/
theorem agreeOn_upgrade (h : timestamp.PromisesAttest) (distinct : key ≠ other)
    (upgrading : timestamp.Upgrading key bytes) : AgreeOn other timestamp upgrading.next where
  digest := rfl
  position := positionOfKey?_upgrade h upgrading other
  held {index} hfound := by
    have hindex : upgrading.index ≠ index := by
      intro hsame
      exact positionOfKey?_ne_index distinct upgrading (hsame ▸ hfound)
    rw [Upgrading.next, attestations_withAttestations, List.getElem?_set_ne hindex]

/-- So it is whether or not the upgrade succeeds. -/
theorem agreeOn_step_upgrade (h : timestamp.PromisesAttest) (distinct : key ≠ other)
    (bytes : Bytes) : AgreeOn other timestamp (timestamp.step (.upgrade key bytes)).2 := by
  rcases timestamp.step_upgrade_cases key bytes with hstep | ⟨upgrading, hstep⟩
  · rw [hstep]
    exact .refl other timestamp
  · rw [hstep]
    exact agreeOn_upgrade h distinct upgrading

/-- After an upgrade the chain of every pending attestation still attests, since
chains only grow. -/
theorem promisesAttest_step_upgrade (h : timestamp.PromisesAttest) (key : CalendarKey)
    (bytes : Bytes) : (timestamp.step (.upgrade key bytes)).2.PromisesAttest := by
  rcases timestamp.step_upgrade_cases key bytes with hstep | ⟨upgrading, hstep⟩
  · rw [hstep]
    exact h
  · rw [hstep]
    intro attestation hmem hpending
    rcases List.mem_or_eq_of_mem_set hmem with hmem | rfl
    · exact h attestation hmem hpending
    · have hoperations : upgrading.result.operations =
          upgrading.current.operations ++ upgrading.continuation :=
        Attestation.operations_of_fold upgrading.ran
      rcases h _ (List.mem_of_getElem? upgrading.held) upgrading.pending with
        ⟨operation, hold, hattests⟩
      exact ⟨operation, hoperations ▸ List.mem_append_left _ hold, hattests⟩

/-! ## Two upgrades -/

theorem step_upgrade_of_upgrading (upgrading : timestamp.Upgrading key bytes) :
    timestamp.step (.upgrade key bytes) = (.ok .nothing, upgrading.next) :=
  step_upgrade_of_ok (upgrade_eq_ok.mpr ⟨upgrading, rfl⟩)

theorem step_upgrade_of_refusal {e : Error} (refusal : timestamp.Refusal key bytes e) :
    timestamp.step (.upgrade key bytes) = (.error e, timestamp) :=
  step_upgrade_of_error (upgrade_eq_error.mpr refusal)

/-- An upgrade succeeds or fails as it does where the timestamp agrees. -/
theorem step_upgrade_fst_of_agreeOn {a b : Timestamp} (h : AgreeOn key a b) (bytes : Bytes) :
    (b.step (.upgrade key bytes)).1 = (a.step (.upgrade key bytes)).1 := by
  cases hupgrade : a.upgrade key bytes with
  | error e =>
    have refusal := upgrade_eq_error.mp hupgrade
    rw [step_upgrade_of_refusal refusal, step_upgrade_of_refusal (refusal.carried h)]
  | ok next =>
    rcases upgrade_eq_ok.mp hupgrade with ⟨upgrading, _⟩
    rw [step_upgrade_of_upgrading upgrading, step_upgrade_of_upgrading (upgrading.carried h)]

/-- Two upgrades under different keys replace different attestations, so they may
be swapped. -/
theorem step_upgrade_comm (h : timestamp.PromisesAttest) (distinct : key ≠ other)
    (bytes more : Bytes) :
    ((timestamp.step (.upgrade key bytes)).2.step (.upgrade other more)).2 =
      ((timestamp.step (.upgrade other more)).2.step (.upgrade key bytes)).2 := by
  cases hfirst : timestamp.upgrade key bytes with
  | error e =>
    have first := upgrade_eq_error.mp hfirst
    have later := first.carried (agreeOn_step_upgrade h distinct.symm more)
    rw [step_upgrade_of_refusal first, step_upgrade_of_refusal later]
  | ok next =>
    rcases upgrade_eq_ok.mp hfirst with ⟨first, _⟩
    cases hsecond : timestamp.upgrade other more with
    | error e =>
      have second := upgrade_eq_error.mp hsecond
      have later := second.carried (agreeOn_step_upgrade h distinct bytes)
      rw [step_upgrade_of_refusal second, step_upgrade_of_refusal later]
    | ok next' =>
      rcases upgrade_eq_ok.mp hsecond with ⟨second, _⟩
      have hindex : first.index ≠ second.index := by
        intro hsame
        exact positionOfKey?_ne_index distinct first (hsame ▸ second.found)
      rw [step_upgrade_of_upgrading first, step_upgrade_of_upgrading second,
        step_upgrade_of_upgrading (second.carried (agreeOn_upgrade h distinct first)),
        step_upgrade_of_upgrading (first.carried (agreeOn_upgrade h distinct.symm second))]
      exact congrArg timestamp.withAttestations (List.set_comm first.result second.result hindex)

/-- As long as the chain of every pending attestation attests, two upgrades under
different keys come to the same in either order: they leave the same timestamp,
and each of them succeeds or fails as it does in the other order. -/
theorem upgrades_commute {timestamp : Timestamp} (attest : timestamp.PromisesAttest)
    {key other : CalendarKey} (distinct : key ≠ other) (bytes more : Bytes) :
    timestamp.after [.upgrade key bytes, .upgrade other more] =
        timestamp.after [.upgrade other more, .upgrade key bytes] ∧
      timestamp.results [.upgrade key bytes, .upgrade other more] =
        (timestamp.results [.upgrade other more, .upgrade key bytes]).reverse := by
  constructor
  · exact step_upgrade_comm attest distinct bytes more
  · have hfirst := agreeOn_step_upgrade attest distinct.symm more
    have hsecond := agreeOn_step_upgrade attest distinct bytes
    simp only [results, List.reverse_cons, List.reverse_nil, List.nil_append,
      List.singleton_append]
    rw [step_upgrade_fst_of_agreeOn hfirst, step_upgrade_fst_of_agreeOn hsecond]

/-- The promise of one calendar for the new timestamp, and that of another for
what comes of appending a byte. -/
def twoPromises : List Action :=
  [.importResponse 7 (promise 0x61), .importResponse 7 ([0xf0, 0x01, 0x2a] ++ promise 0x62)]

/-- Both promises can be upgraded, and it does not matter which comes first. -/
theorem upgrades_commute_twoPromises :
    (specimen.after twoPromises).PromisesAttest ∧
      specimenKey ≠ ⟨specimenKey.bytes ++ [0x2a]⟩ ∧
      (specimen.after twoPromises).after
          [.upgrade specimenKey anchorage, .upgrade ⟨specimenKey.bytes ++ [0x2a]⟩ [0x08]] =
        (specimen.after twoPromises).after
          [.upgrade ⟨specimenKey.bytes ++ [0x2a]⟩ [0x08], .upgrade specimenKey anchorage] ∧
      (specimen.after twoPromises).results
          [.upgrade specimenKey anchorage, .upgrade ⟨specimenKey.bytes ++ [0x2a]⟩ [0x08]] =
        ((specimen.after twoPromises).results
          [.upgrade ⟨specimenKey.bytes ++ [0x2a]⟩ [0x08],
            .upgrade specimenKey anchorage]).reverse ∧
      ((specimen.after twoPromises).results
          [.upgrade ⟨specimenKey.bytes ++ [0x2a]⟩ [0x08],
            .upgrade specimenKey anchorage]).map Except.toOption =
        [some .nothing, some .nothing] := by
  have hattest : (specimen.after twoPromises).PromisesAttest := by
    unfold PromisesAttest
    decide +kernel
  have hdistinct : specimenKey ≠ ⟨specimenKey.bytes ++ [0x2a]⟩ := by decide +kernel
  rcases upgrades_commute hattest hdistinct anchorage [0x08] with ⟨hafter, hresults⟩
  exact ⟨hattest, hdistinct, hafter, hresults, by decide +kernel⟩

/-! ## Any number of upgrades -/

/-- Upgrades under given keys with given continuations. -/
def upgrades (asked : List (CalendarKey × Bytes)) : List Action :=
  asked.map fun (key, bytes) => .upgrade key bytes

/-- Upgrades change nothing that an upgrade under a key looks at which none of
them is made under. -/
theorem agreeOn_after_upgrades (h : timestamp.PromisesAttest) {asked : List (CalendarKey × Bytes)}
    (distinct : ∀ pair ∈ asked, pair.1 ≠ key) :
    AgreeOn key timestamp (timestamp.after (upgrades asked)) := by
  induction asked generalizing timestamp with
  | nil => exact .refl key timestamp
  | cons pair rest ih =>
    rcases List.forall_mem_cons.mp distinct with ⟨hpair, hrest⟩
    have hfirst := agreeOn_step_upgrade h hpair pair.2
    exact hfirst.trans (ih (promisesAttest_step_upgrade h pair.1 pair.2) hrest)

/-- As long as the chain of every pending attestation attests, an upgrade succeeds
or fails as it does at once, however many upgrades under other keys come first. -/
theorem step_upgrade_fst_after_upgrades (h : timestamp.PromisesAttest)
    {asked : List (CalendarKey × Bytes)} (distinct : ∀ pair ∈ asked, pair.1 ≠ key)
    (bytes : Bytes) :
    ((timestamp.after (upgrades asked)).step (.upgrade key bytes)).1 =
      (timestamp.step (.upgrade key bytes)).1 :=
  step_upgrade_fst_of_agreeOn (agreeOn_after_upgrades h distinct) bytes

/-- As long as the chain of every pending attestation attests, upgrades under
different keys may be rearranged. -/
theorem after_upgrades_of_perm {first second : List (CalendarKey × Bytes)}
    (hperm : first.Perm second) (distinct : (first.map Prod.fst).Nodup) {timestamp : Timestamp}
    (h : timestamp.PromisesAttest) :
    timestamp.after (upgrades first) = timestamp.after (upgrades second) := by
  induction hperm generalizing timestamp with
  | nil => rfl
  | cons pair _ ih =>
    exact ih (List.nodup_cons.mp distinct).2 (promisesAttest_step_upgrade h pair.1 pair.2)
  | swap pair before rest =>
    have hkeys : before.1 ≠ pair.1 := by
      intro hsame
      exact (List.nodup_cons.mp distinct).1 (hsame ▸ List.mem_cons_self)
    have hswap := step_upgrade_comm h hkeys before.2 pair.2
    exact congrArg (fun reached => reached.after (upgrades rest)) hswap
  | trans hfirst _ ih ih' =>
    have hmiddle := (hfirst.map Prod.fst).nodup_iff.mp distinct
    exact (ih distinct h).trans (ih' hmiddle h)

end CalendarStamp.Timestamp
