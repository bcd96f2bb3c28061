import CalendarStamp.Proofs.GatheredEvidence

/-!
# The last evidence of each sort

A run of a chain can be described without running it.  Each field of the result
is settled by one operation, the last in the chain that has something to say of
it, or is what it was.  What such an operation brings up depends on the
accumulator at its place, and that is the key which the operations so far lead
to when the attestations among them are passed over.  So the two ways to go
through a chain, to its first attestation and to its end, tell the same story.

Main results:

- Theorem `Evidence.accumulatorAfter_of_gather`: a run ends with the key that its
  operations lead to without the attestations.
- Theorem `Evidence.IsSort.settledByLast`: evidence of a sort is settled by the
  last operation that brings it up.
- Theorem `Attestation.LastEvidence.unique`: the last evidence of each sort leaves
  no choice.
- Theorem `Attestation.fold_last_evidence`: what a run gives, and when it fails.
-/

namespace CalendarStamp

open Outcome

/-! ## Operations that bring up evidence -/

namespace Operation

/-- Whether an operation attests a block at a height. -/
def namesBlock (operation : Operation) : Bool :=
  operation.isAttestation && operation.blockHeight ≠ 0

/-- Whether an operation puts a lock time behind the accumulator, which ends a transaction. -/
def endsTransaction (operation : Operation) : Bool :=
  operation.kind? = some .append && operation.value.length = lockTimeLength

/-- Whether an operation puts the first part of a transaction in front of the accumulator. -/
def beginsTransaction (operation : Operation) : Bool :=
  operation.kind? = some .prepend && transactionThreshold < operation.value.length

/-- The operations of a chain that do not attest. -/
def unattested (operations : List Operation) : List Operation :=
  operations.filter fun operation => !operation.isAttestation

theorem namesBlock_iff {operation : Operation} :
    operation.namesBlock = true ↔ operation.isAttestation = true ∧ operation.blockHeight ≠ 0 := by
  simp [namesBlock]

theorem endsTransaction_iff {operation : Operation} :
    operation.endsTransaction = true ↔
      operation.kind? = some .append ∧ operation.value.length = lockTimeLength := by
  simp [endsTransaction]

theorem beginsTransaction_iff {operation : Operation} :
    operation.beginsTransaction = true ↔
      operation.kind? = some .prepend ∧ transactionThreshold < operation.value.length := by
  simp [beginsTransaction]

end Operation

namespace Step

/-- An operation runs as putting a value behind when it is one that does. -/
theorem ofOperation_eq_append {operation : Operation} {value : Bytes} :
    ofOperation operation = .ok (append value) ↔
      operation.kind? = some .append ∧ value = operation.value := by
  unfold ofOperation
  cases operation.kind? with
  | none => simp
  | some kind => cases kind <;> simp [eq_comm]

/-- An operation runs as putting a value in front when it is one that does. -/
theorem ofOperation_eq_prepend {operation : Operation} {value : Bytes} :
    ofOperation operation = .ok (prepend value) ↔
      operation.kind? = some .prepend ∧ value = operation.value := by
  unfold ofOperation
  cases operation.kind? with
  | none => simp
  | some kind => cases kind <;> simp [eq_comm]

end Step

/-! ## What the accumulator holds -/

/-- What the accumulator holds after operations: the key that they lead to when the
attestations among them are passed over. -/
def accumulatorAfter (initial : Bytes) (operations : List Operation) : Except Error Bytes :=
  CalendarKey.bytes <$> deriveKey initial (Operation.unattested operations)

namespace Evidence

/-- A run ends with what the accumulator holds after its operations. -/
theorem accumulatorAfter_of_gather {initial final : Bytes} {operations : List Operation}
    {evidence : Evidence} (h : gather initial operations = .ok (final, evidence)) :
    accumulatorAfter initial operations = .ok final := by
  induction operations generalizing initial final evidence with
  | nil =>
    cases h
    rfl
  | cons operation rest ih =>
    rcases bind_eq_ok.mp h with ⟨step, hstep, h⟩
    rcases bind_eq_ok.mp h with ⟨⟨last, later⟩, hlater, h⟩
    cases h
    have hrest := ih hlater
    rw [accumulatorAfter, Operation.unattested] at hrest ⊢
    by_cases hattests : operation.isAttestation = true
    · -- An attestation is passed over, and it leaves the accumulator as it is.
      have hattest := Step.ofOperation_eq_attest.mpr ⟨hattests, rfl⟩
      rw [hstep] at hattest
      cases hattest
      rw [List.filter_cons_of_neg (by simp [hattests])]
      exact hrest
    · have hother := Bool.eq_false_iff.mpr hattests
      rw [List.filter_cons_of_pos (by simp [hother]), deriveKey_step hstep hother]
      exact hrest

/-- One more operation makes of the accumulator what its step does. -/
theorem accumulatorAfter_concat {initial middle : Bytes} {before : List Operation}
    {operation : Operation} {step : Step} {earlier : Evidence}
    (h : gather initial before = .ok (middle, earlier))
    (hstep : Step.ofOperation operation = .ok step) :
    accumulatorAfter initial (before ++ [operation]) = .ok (step.apply middle) := by
  have hlast : gather initial (before ++ [operation]) = .ok (step.apply middle,
      earlier.followedBy ((ofStep step middle (step.apply middle)).followedBy {})) := by
    simp [gather_append, gather, h, hstep]
  exact accumulatorAfter_of_gather hlast

/-! ## Sorts of evidence -/

theorem isSort_blockHeight :
    IsSort (fun evidence => present? 0 evidence.blockHeight) Operation.namesBlock where
  empty := rfl
  followedBy earlier later := present?_ite 0 earlier.blockHeight later.blockHeight
  silent := by
    intro operation step before after hstep hsilent
    by_cases hattests : operation.isAttestation = true
    · have hheight : operation.blockHeight = 0 := by
        simpa [Operation.namesBlock, hattests] using hsilent
      rw [ofStep_of_attestation hstep hattests]
      exact if_pos hheight
    · rw [(ofStep_of_other hstep hattests before after).2.2]
      rfl

theorem isSort_transactionId : IsSort transactionId Operation.endsTransaction where
  empty := rfl
  followedBy _ _ := rfl
  silent := by
    intro operation step before after hstep hsilent
    cases step with
    | append value =>
      rcases Step.ofOperation_eq_append.mp hstep with ⟨hkind, rfl⟩
      have hlength : ¬operation.value.length = lockTimeLength := by
        simpa [Operation.endsTransaction, hkind] using hsilent
      rw [ofStep, if_neg hlength]
    | prepend value =>
      rw [ofStep]
      split <;> rfl
    | _ => rfl

theorem isSort_timestampMerkleRoot :
    IsSort timestampMerkleRoot Operation.beginsTransaction where
  empty := rfl
  followedBy _ _ := rfl
  silent := by
    intro operation step before after hstep hsilent
    cases step with
    | prepend value =>
      rcases Step.ofOperation_eq_prepend.mp hstep with ⟨hkind, rfl⟩
      have hlength : ¬transactionThreshold < operation.value.length := by
        simpa [Operation.beginsTransaction, hkind] using hsilent
      rw [ofStep, if_neg hlength]
    | append value =>
      rw [ofStep]
      split <;> rfl
    | _ => rfl

end Evidence

/-! ## What the last operation settles -/

/-- Whether something is settled by the last operation of a chain that meets a condition, with
the operations before it, and something else holds where no operation meets it. -/
structure SettledByLast (condition : Operation → Bool) (operations : List Operation)
    (settled : List Operation → Operation → Prop) (kept : Prop) : Prop where
  of_last : ∀ {before after : List Operation} {operation : Operation},
    operations = before ++ operation :: after → condition operation = true →
      (∀ later ∈ after, condition later = false) → settled before operation
  of_none : (∀ operation ∈ operations, condition operation = false) → kept

/-- What follows from two things in the way that they are settled, and in the way that they
are kept, holds whatever the chain is. -/
theorem SettledByLast.elim {condition : Operation → Bool} {operations : List Operation}
    {settled settled' : List Operation → Operation → Prop} {kept kept' goal : Prop}
    (h : SettledByLast condition operations settled kept)
    (h' : SettledByLast condition operations settled' kept')
    (of_last : ∀ before operation, settled before operation → settled' before operation → goal)
    (of_none : kept → kept' → goal) : goal := by
  cases hfound : operations.reverse.find? condition with
  | none =>
    have hnone : ∀ operation ∈ operations, condition operation = false := by
      simpa using hfound
    exact of_none (h.of_none hnone) (h'.of_none hnone)
  | some operation =>
    rcases Operation.exists_last hfound with ⟨before, after, hsplit, hmeets, hafter⟩
    exact of_last before operation (h.of_last hsplit hmeets hafter)
      (h'.of_last hsplit hmeets hafter)

/-- A value over which evidence of a sort is laid is settled by the last operation that
brings such evidence up. -/
theorem Evidence.IsSort.settledByLast {α : Type} {part : Evidence → Option α}
    {condition : Operation → Bool} (sort : IsSort part condition) {initial final : Bytes}
    {operations : List Operation} {evidence : Evidence}
    {settled : List Operation → Operation → Prop}
    (h : gather initial operations = .ok (final, evidence)) {value old : α}
    (hvalue : value = (part evidence).getD old)
    (brought : ∀ {before operation step middle earlier},
      gather initial before = .ok (middle, earlier) → Step.ofOperation operation = .ok step →
        condition operation = true →
          ∃ found, part (ofStep step middle (step.apply middle)) = some found ∧
            (value = found → settled before operation)) :
    SettledByLast condition operations settled (value = old) where
  of_last := by
    intro before after operation hoperations hmeets hafter
    subst hoperations
    rcases sort.eq_of_last h hafter with ⟨middle, earlier, step, hbefore, hstep, hpart⟩
    rcases brought hbefore hstep hmeets with ⟨found, hfound, hsettled⟩
    apply hsettled
    rw [hvalue, hpart, hfound]
    rfl
  of_none := by
    intro hnone
    rw [hvalue, sort.eq_none h hnone]
    rfl

/-! ## Running a chain -/

namespace Attestation

/-- Whether an attestation is another one with the last evidence of each sort that its chain
holds.  An operation says what it attests itself; a transaction is complete behind its lock
time, and what it commits to is what the accumulator held before its first part.  The Merkle
root of a block is what the whole chain leads to, if the attestation has come to name one. -/
structure LastEvidence (initial : Bytes) (attestation folded : Attestation) : Prop where
  operations : folded.operations = attestation.operations
  submitted : folded.submitted = attestation.submitted
  status : SettledByLast Operation.isAttestation attestation.operations
    (fun _ last => folded.status = last.status) (folded.status = attestation.status)
  calendarUrl : SettledByLast Operation.namesCalendar attestation.operations
    (fun _ last => folded.calendarUrl = last.calendarUrl)
    (folded.calendarUrl = attestation.calendarUrl)
  blockHeight : SettledByLast Operation.namesBlock attestation.operations
    (fun _ last => folded.blockHeight = last.blockHeight)
    (folded.blockHeight = attestation.blockHeight)
  transactionId : SettledByLast Operation.endsTransaction attestation.operations
    (fun before last =>
      (fun reached => (Hash.doubleSha256 reached).reverse) <$>
        accumulatorAfter initial (before ++ [last]) = .ok folded.transactionId)
    (folded.transactionId = attestation.transactionId)
  timestampMerkleRoot : SettledByLast Operation.beginsTransaction attestation.operations
    (fun before _ => accumulatorAfter initial before = .ok folded.timestampMerkleRoot)
    (folded.timestampMerkleRoot = attestation.timestampMerkleRoot)
  blockMerkleRoot :
    if folded.blockHeight = 0 then
      folded.blockMerkleRoot = attestation.blockMerkleRoot
    else
      List.reverse <$> accumulatorAfter initial attestation.operations =
        .ok folded.blockMerkleRoot

/-- The last evidence of each sort leaves no choice. -/
theorem LastEvidence.unique {initial : Bytes} {attestation folded other : Attestation}
    (h : LastEvidence initial attestation folded) (h' : LastEvidence initial attestation other) :
    folded = other := by
  have hoperations := h.operations.trans h'.operations.symm
  have hsubmitted := h.submitted.trans h'.submitted.symm
  have hstatus : folded.status = other.status :=
    h.status.elim h'.status (fun _ _ h h' => h.trans h'.symm) fun h h' => h.trans h'.symm
  have hcalendarUrl : folded.calendarUrl = other.calendarUrl :=
    h.calendarUrl.elim h'.calendarUrl (fun _ _ h h' => h.trans h'.symm)
      fun h h' => h.trans h'.symm
  have hblockHeight : folded.blockHeight = other.blockHeight :=
    h.blockHeight.elim h'.blockHeight (fun _ _ h h' => h.trans h'.symm)
      fun h h' => h.trans h'.symm
  have htransactionId : folded.transactionId = other.transactionId :=
    h.transactionId.elim h'.transactionId (fun _ _ h h' => Except.ok.inj (h.symm.trans h'))
      fun h h' => h.trans h'.symm
  have htimestampMerkleRoot : folded.timestampMerkleRoot = other.timestampMerkleRoot :=
    h.timestampMerkleRoot.elim h'.timestampMerkleRoot
      (fun _ _ h h' => Except.ok.inj (h.symm.trans h')) fun h h' => h.trans h'.symm
  have hblockMerkleRoot : folded.blockMerkleRoot = other.blockMerkleRoot := by
    have hfolded := h.blockMerkleRoot
    have hother := h'.blockMerkleRoot
    rw [← hblockHeight] at hother
    by_cases hheight : folded.blockHeight = 0
    · rw [if_pos hheight] at hfolded hother
      exact hfolded.trans hother.symm
    · rw [if_neg hheight] at hfolded hother
      exact Except.ok.inj (hfolded.symm.trans hother)
  cases folded
  cases other
  rw [mk.injEq]
  exact ⟨hcalendarUrl, hsubmitted, hoperations, hstatus, hblockHeight, hblockMerkleRoot,
    htimestampMerkleRoot, htransactionId⟩

/-- Running a chain takes up the last evidence of each sort. -/
theorem lastEvidence_of_fold {initial : Bytes} {attestation folded : Attestation}
    (h : attestation.fold initial = .ok folded) : LastEvidence initial attestation folded := by
  have hoperations := operations_of_fold h
  have hsubmitted := submitted_of_fold h
  rcases fold_eq_ok.mp h with ⟨final, evidence, hgather, rfl⟩
  rw [conclude_eq] at hoperations hsubmitted ⊢
  constructor
  case operations => exact hoperations
  case submitted => exact hsubmitted
  case status =>
    refine Evidence.isSort_status.settledByLast hgather rfl ?_
    intro before operation step middle earlier _ hstep hattests
    rw [Evidence.ofStep_of_attestation hstep hattests]
    exact ⟨_, rfl, id⟩
  case calendarUrl =>
    refine Evidence.isSort_calendarUrl.settledByLast hgather
      (Evidence.getD_present? _ _ _).symm ?_
    intro before operation step middle earlier _ hstep hnames
    rcases Operation.namesCalendar_iff.mp hnames with ⟨hattests, hurl⟩
    rw [Evidence.ofStep_of_attestation hstep hattests]
    exact ⟨_, Evidence.present?_of_ne hurl, id⟩
  case blockHeight =>
    refine Evidence.isSort_blockHeight.settledByLast hgather
      (Evidence.getD_present? _ _ _).symm ?_
    intro before operation step middle earlier _ hstep hnames
    rcases Operation.namesBlock_iff.mp hnames with ⟨hattests, hheight⟩
    rw [Evidence.ofStep_of_attestation hstep hattests]
    exact ⟨_, Evidence.present?_of_ne hheight, id⟩
  case transactionId =>
    refine Evidence.isSort_transactionId.settledByLast hgather rfl ?_
    intro before operation step middle earlier hbefore hstep hends
    rcases Operation.endsTransaction_iff.mp hends with ⟨hkind, hlength⟩
    have hreached := Evidence.accumulatorAfter_concat hbefore hstep
    -- The hash is taken behind the lock time, so the operation itself counts.
    have happend := Step.ofOperation_eq_append.mpr ⟨hkind, rfl⟩
    cases hstep.symm.trans happend
    rw [Evidence.ofStep, if_pos hlength]
    refine ⟨_, rfl, fun hvalue => ?_⟩
    rw [hreached, hvalue]
    rfl
  case timestampMerkleRoot =>
    refine Evidence.isSort_timestampMerkleRoot.settledByLast hgather rfl ?_
    intro before operation step middle earlier hbefore hstep hbegins
    rcases Operation.beginsTransaction_iff.mp hbegins with ⟨hkind, hlength⟩
    have hreached := Evidence.accumulatorAfter_of_gather hbefore
    -- The root is what the transaction was put in front of, so only those before count.
    have hprepend := Step.ofOperation_eq_prepend.mpr ⟨hkind, rfl⟩
    cases hstep.symm.trans hprepend
    rw [Evidence.ofStep, if_pos hlength]
    refine ⟨_, rfl, fun hvalue => ?_⟩
    rw [hreached, hvalue]
  case blockMerkleRoot =>
    have hreached := Evidence.accumulatorAfter_of_gather hgather
    split
    · rfl
    · rw [hreached]
      rfl

/-- Running a chain fails exactly when some operation has an unknown kind, with the first such
kind.  Else it gives the attestation with the last evidence of each sort in the chain, and
nothing but that. -/
theorem fold_last_evidence (initial : Bytes) (attestation : Attestation) :
    (∀ e, attestation.fold initial = .error e ↔
      ∃ operation, Operation.firstUnknown? attestation.operations = some operation ∧
        e = .unhandledOperation operation.kind) ∧
    ∀ folded, attestation.fold initial = .ok folded ↔
      Operation.firstUnknown? attestation.operations = none ∧
        LastEvidence initial attestation folded := by
  refine ⟨fun e => fold_eq_error_iff initial, fun folded => ?_⟩
  cases hfold : attestation.fold initial with
  | error e =>
    rcases (fold_eq_error_iff initial).mp hfold with ⟨operation, hunknown, _⟩
    simp [hunknown]
  | ok result =>
    have hevidence := lastEvidence_of_fold hfold
    have hknown := (fold_isOk_iff initial attestation).mp ⟨result, hfold⟩
    constructor
    · intro h
      cases h
      exact ⟨Operation.firstUnknown?_eq_none_iff.mpr hknown, hevidence⟩
    · rintro ⟨_, h⟩
      exact congrArg Except.ok (hevidence.unique h)

end Attestation

end CalendarStamp
