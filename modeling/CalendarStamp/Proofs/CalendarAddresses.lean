import CalendarStamp.Proofs.Rederivation

/-!
# Calendar addresses within a timestamp

An attestation is only attached when its calendar address is new.  The address
is not fixed, though: when an upgrade runs a longer chain, the address becomes
the one that the chain names last, and nothing compares it with the others.  So
two attestations of a timestamp get the same address exactly when an upgrade
takes over the address of another attestation.

Main results:

- Theorem `calendarUrl_result`: the address after an upgrade.
- Theorem `unique_of_move`: no other action can repeat an address.
- Theorem `unique_addresses_iff`: addresses are unique throughout a history
  exactly when no upgrade in it takes over the address of another attestation.
- Theorem `upgrade_repeats_address`: an upgrade that does.
-/

namespace CalendarStamp.Timestamp

/-! ## Unique addresses -/

/-- Whether no two attestations have the same calendar address. -/
def UniqueAddresses (timestamp : Timestamp) : Prop :=
  ∀ (i j : Nat) (a b : Attestation), timestamp.attestations[i]? = some a →
    timestamp.attestations[j]? = some b → a.calendarUrl = b.calendarUrl → i = j

/-- Whether an upgrade succeeds and another attestation already has the address
that the longer chain names last, or, if it names none, that the attestation has
as it is. -/
def Clash (timestamp : Timestamp) (key : CalendarKey) (bytes : Bytes) : Prop :=
  ∃ (upgrading : timestamp.Upgrading key bytes) (other : Nat) (held : Attestation),
    other ≠ upgrading.index ∧ timestamp.attestations[other]? = some held ∧
      held.calendarUrl =
        (Operation.lastAddress?
          (upgrading.current.operations ++ upgrading.continuation)).getD
            upgrading.current.calendarUrl

/-- Whether no upgrade among the single actions of a history takes over the
address of another attestation. -/
def NoClash (timestamp : Timestamp) (actions : List Action) : Prop :=
  ∀ (passed : List Action) (key : CalendarKey) (bytes : Bytes),
    passed ++ [.upgrade key bytes] <+: timestamp.singles actions →
      ¬(timestamp.after passed).Clash key bytes

/-- Without attestations there is no address to repeat. -/
theorem unique_of_unstamped {timestamp : Timestamp} (unstamped : timestamp.attestations = []) :
    timestamp.UniqueAddresses := by
  intro i j a b hi
  simp [unstamped] at hi

/-! ## Single actions -/

/-- The address of an attestation after an upgrade. -/
theorem calendarUrl_result {timestamp : Timestamp} {key : CalendarKey} {bytes : Bytes}
    (upgrading : timestamp.Upgrading key bytes) :
    upgrading.result.calendarUrl =
      (Operation.lastAddress?
        (upgrading.current.operations ++ upgrading.continuation)).getD
          upgrading.current.calendarUrl :=
  Attestation.calendarUrl_of_fold upgrading.ran

/-- Attaching an attestation with a new address repeats none. -/
theorem unique_attach {timestamp : Timestamp} {attestation : Attestation}
    (h : timestamp.UniqueAddresses) (hnew : timestamp.IsNew attestation) (now : UInt32) :
    (timestamp.attach now attestation).UniqueAddresses := by
  have hcases : ∀ {index : Nat} {held : Attestation},
      (timestamp.attach now attestation).attestations[index]? = some held →
        timestamp.attestations[index]? = some held ∨
          index = timestamp.attestations.length ∧ held = { attestation with submitted := now } := by
    intro index held hheld
    rw [attestations_attach, List.getElem?_append] at hheld
    split at hheld
    · exact .inl hheld
    · rcases List.getElem?_eq_some_iff.mp hheld with ⟨hlt, hsingle⟩
      simp only [List.length_singleton] at hlt
      refine .inr ⟨by omega, ?_⟩
      simpa using hsingle.symm
  intro i j a b hi hj haddress
  rcases hcases hi with hi | ⟨rfl, rfl⟩ <;> rcases hcases hj with hj | ⟨rfl, rfl⟩
  · exact h i j a b hi hj haddress
  · exact absurd haddress (hnew a (List.mem_of_getElem? hi))
  · exact absurd haddress.symm (hnew b (List.mem_of_getElem? hj))
  · rfl

/-- An upgrade that takes over no address of another attestation repeats none. -/
theorem unique_upgrade {timestamp : Timestamp} {key : CalendarKey} {bytes : Bytes}
    (h : timestamp.UniqueAddresses) (hclash : ¬timestamp.Clash key bytes)
    (upgrading : timestamp.Upgrading key bytes) : upgrading.next.UniqueAddresses := by
  have hother : ∀ {index : Nat} {held : Attestation}, upgrading.index ≠ index →
      upgrading.next.attestations[index]? = some held →
        timestamp.attestations[index]? = some held ∧
          held.calendarUrl ≠ upgrading.result.calendarUrl := by
    intro index held hindex hheld
    rw [Upgrading.next, attestations_withAttestations, List.getElem?_set_ne hindex] at hheld
    refine ⟨hheld, ?_⟩
    intro haddress
    rw [calendarUrl_result upgrading] at haddress
    exact hclash ⟨upgrading, index, held, Ne.symm hindex, hheld, haddress⟩
  have hself : ∀ {held : Attestation},
      upgrading.next.attestations[upgrading.index]? = some held → held = upgrading.result := by
    intro held hheld
    exact Option.some.inj (hheld.symm.trans upgrading.getElem?_next)
  intro i j a b hi hj haddress
  by_cases hindexi : upgrading.index = i <;> by_cases hindexj : upgrading.index = j
  · rw [← hindexi, ← hindexj]
  · subst hindexi
    rw [hself hi] at haddress
    exact absurd haddress.symm (hother hindexj hj).2
  · subst hindexj
    rw [hself hj] at haddress
    exact absurd haddress (hother hindexi hi).2
  · exact h i j a b (hother hindexi hi).1 (hother hindexj hj).1 haddress

/-- An upgrade that takes over the address of another attestation repeats it. -/
theorem not_unique_upgrade {timestamp : Timestamp} {key : CalendarKey} {bytes : Bytes}
    (hclash : timestamp.Clash key bytes) :
    ¬(timestamp.step (.upgrade key bytes)).2.UniqueAddresses := by
  rcases hclash with ⟨upgrading, other, held, hindex, hheld, haddress⟩
  have hnext : (timestamp.step (.upgrade key bytes)).2 = upgrading.next := by
    rw [step_upgrade_of_ok (upgrade_eq_ok.mpr ⟨upgrading, rfl⟩)]
  have hother : upgrading.next.attestations[other]? = some held := by
    rw [Upgrading.next, attestations_withAttestations, List.getElem?_set_ne (Ne.symm hindex), hheld]
  intro hunique
  rw [hnext] at hunique
  rw [← calendarUrl_result upgrading] at haddress
  exact hindex (hunique _ _ _ _ hother upgrading.getElem?_next haddress)

/-- Single actions repeat no address, but for an upgrade that takes one over. -/
theorem unique_of_move {timestamp next : Timestamp} {action : Action}
    (hclash : ∀ key bytes, action = .upgrade key bytes → ¬timestamp.Clash key bytes)
    (move : Move timestamp action next) (h : timestamp.UniqueAddresses) :
    next.UniqueAddresses := by
  cases move with
  | idle => exact h
  | setContext sets attestations hash created fixed =>
    intro i j a b hi hj haddress
    rw [attestations] at hi hj
    exact h i j a b hi hj haddress
  | attach now new => exact unique_attach h new now
  | takeIn now parsed ran new => exact unique_attach h new now
  | upgrade upgrading => exact unique_upgrade h (hclash _ _ rfl) upgrading

/-! ## Histories -/

/-- Single actions without a clash among them repeat no address at any point. -/
theorem unique_throughout {timestamp : Timestamp} {actions : List Action}
    (singles : ∀ action ∈ actions, action.isBatch = false)
    (hclash : ∀ (passed : List Action) (key : CalendarKey) (bytes : Bytes),
      passed ++ [.upgrade key bytes] <+: actions → ¬(timestamp.after passed).Clash key bytes)
    (h : timestamp.UniqueAddresses) {passed : List Action} (hpassed : passed <+: actions) :
    (timestamp.after passed).UniqueAddresses := by
  induction actions generalizing timestamp passed with
  | nil =>
    rw [List.prefix_nil.mp hpassed]
    exact h
  | cons action rest ih =>
    rcases List.forall_mem_cons.mp singles with ⟨hsingle, hrest⟩
    rcases List.prefix_cons_iff.mp hpassed with rfl | ⟨tail, rfl, htail⟩
    · exact h
    · have hfirst : ∀ key bytes, action = .upgrade key bytes → ¬timestamp.Clash key bytes := by
        intro key bytes haction
        have hprefix : [] ++ [Action.upgrade key bytes] <+: action :: rest := by
          rw [haction]
          exact ⟨rest, rfl⟩
        exact hclash [] key bytes hprefix
      have hnext := unique_of_move hfirst (timestamp.move_step hsingle) h
      refine ih hrest ?_ hnext htail
      intro passed key bytes hprefix
      exact hclash (action :: passed) key bytes (List.cons_prefix_cons.mpr ⟨rfl, hprefix⟩)

/-- The single actions of a part of a history come first among those of the whole. -/
theorem singles_append (timestamp : Timestamp) (first second : List Action) :
    timestamp.singles (first ++ second) =
      timestamp.singles first ++ (timestamp.after first).singles second := by
  induction first generalizing timestamp with
  | nil => rfl
  | cons action rest ih => simp only [List.cons_append, singles, ih, after_cons, List.append_assoc]

/-- Addresses are unique in every state that the single actions of a history pass
through, exactly when no upgrade among them takes over the address of another
attestation; and then they are unique after every part of the history. -/
theorem unique_addresses_iff {timestamp : Timestamp} (unstamped : timestamp.attestations = [])
    (actions : List Action) :
    ((∀ passed, passed <+: timestamp.singles actions →
        (timestamp.after passed).UniqueAddresses) ↔ timestamp.NoClash actions) ∧
      (timestamp.NoClash actions → ∀ before, before <+: actions →
        (timestamp.after before).UniqueAddresses) := by
  have hthroughout : timestamp.NoClash actions → ∀ passed, passed <+: timestamp.singles actions →
      (timestamp.after passed).UniqueAddresses := by
    intro hclash passed hpassed
    exact unique_throughout (fun _ hmem => (mem_singles hmem).1) hclash
      (unique_of_unstamped unstamped) hpassed
  refine ⟨⟨?_, hthroughout⟩, ?_⟩
  · intro hunique passed key bytes hprefix hclash
    have hafter := hunique _ hprefix
    rw [after_append] at hafter
    exact not_unique_upgrade hclash hafter
  · intro hclash before hbefore
    rcases hbefore with ⟨after, rfl⟩
    rw [← after_singles]
    refine hthroughout hclash _ ?_
    rw [singles_append]
    exact List.prefix_append _ _

/-- Promises of two calendars, and for the first of them a continuation that
names the second. -/
def takeover : List Action :=
  [.importResponse 7 (promise 0x61), .importResponse 7 (promise 0x62),
    .upgrade specimenKey (promise 0x62)]

/-- In this history the addresses stay different exactly if none of its steps clashes. -/
theorem unique_addresses_takeover :
    specimen.attestations = [] ∧
      ((∀ passed, passed <+: specimen.singles takeover →
          (specimen.after passed).UniqueAddresses) ↔ specimen.NoClash takeover) ∧
        (specimen.NoClash takeover → ∀ before, before <+: takeover →
          (specimen.after before).UniqueAddresses) :=
  ⟨rfl, unique_addresses_iff rfl takeover⟩

/-- A calendar whose continuation names another calendar takes over its address,
so that two attestations of a timestamp have the same one. -/
theorem upgrade_repeats_address :
    create 0 [0x2a] ⟨List.replicate 16 0, rfl⟩ = .ok specimen ∧
      (specimen.after takeover).attestations.map Attestation.calendarUrl = ["b", "b"] ∧
      ¬(specimen.after takeover).UniqueAddresses := by
  have haddresses :
      (specimen.after takeover).attestations.map Attestation.calendarUrl = ["b", "b"] := by
    decide +kernel
  refine ⟨rfl, haddresses, ?_⟩
  intro hunique
  rcases List.map_eq_cons_iff.mp haddresses with ⟨first, rest, hcons, hfirst, hrest⟩
  rcases List.map_eq_cons_iff.mp hrest with ⟨second, others, rfl, hsecond, _⟩
  have hindices := hunique 0 1 first second (by simp [hcons]) (by simp [hcons])
    (hfirst.trans hsecond.symm)
  cases hindices

end CalendarStamp.Timestamp
