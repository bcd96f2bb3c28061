import CalendarStamp.Evidence
import CalendarStamp.Proofs.AttestingOperation

/-!
# The evidence of a chain as a value

Running a chain rewrites an attestation step by step.  What a run brings up does
not depend on what the attestation held before, so it can be gathered first, as
a value of its own, and laid over the attestation at the end.  This makes it
plain why a chain may be run again after it has grown: what the first run left
behind is covered by what the second run finds.

Main results:

- Theorem `Attestation.fold_eq_gather`: running a chain is gathering its
  evidence and laying it over the attestation.
- Theorem `Attestation.fold_eq_error_iff`: running a chain fails with the first
  kind in it that is not known.
- Theorem `Evidence.IsSort.eq_of_last`: which operation brings up the evidence of a
  sort.
- Theorems `Attestation.status_of_fold` and `Attestation.calendarUrl_of_fold`:
  the last attestation in the chain decides the status, the last one that names
  a calendar decides the address.
- Theorem `Attestation.refold_append`: running a chain, extending it and running
  it again is the same as running the extended chain once.
-/

namespace CalendarStamp

open Outcome

/-! ## Evidence -/

/-- The evidence that a run brings up, of each sort the last.  A sort that the
run did not bring up is `none`; for the address and the height, which no
evidence can leave empty or zero, it is the empty text and zero. -/
structure Evidence where
  status : Option Int32 := none
  calendarUrl : String := ""
  blockHeight : UInt32 := 0
  timestampMerkleRoot : Option Bytes := none
  transactionId : Option Bytes := none
deriving DecidableEq

namespace Evidence

/-- The evidence that a step brings up. -/
def ofStep (step : Step) (before after : Bytes) : Evidence :=
  match step with
  | .append value =>
    if value.length = lockTimeLength then
      { transactionId := some (Hash.doubleSha256 after).reverse }
    else
      {}
  | .prepend value =>
    if transactionThreshold < value.length then { timestampMerkleRoot := some before } else {}
  | .attest operation =>
    { status := some operation.status
      calendarUrl := operation.calendarUrl
      blockHeight := operation.blockHeight }
  | _ => {}

/-- Evidence and then more evidence, which counts where it has something to say. -/
def followedBy (earlier later : Evidence) : Evidence where
  status := later.status.or earlier.status
  calendarUrl := if later.calendarUrl = "" then earlier.calendarUrl else later.calendarUrl
  blockHeight := if later.blockHeight = 0 then earlier.blockHeight else later.blockHeight
  timestampMerkleRoot := later.timestampMerkleRoot.or earlier.timestampMerkleRoot
  transactionId := later.transactionId.or earlier.transactionId

@[simp] theorem empty_followedBy (evidence : Evidence) : followedBy {} evidence = evidence := by
  cases evidence
  simp +contextual [followedBy, eq_comm]

theorem followedBy_assoc (first second third : Evidence) :
    (first.followedBy second).followedBy third = first.followedBy (second.followedBy third) := by
  simp only [followedBy, Option.or_assoc, mk.injEq, true_and, and_true]
  constructor
  · split <;> simp_all
  · split <;> simp_all

/-- Evidence that is brought up twice counts once. -/
@[simp] theorem followedBy_self (evidence : Evidence) :
    evidence.followedBy evidence = evidence := by
  simp [followedBy]

/-- Run operations from an accumulator and gather the evidence; return the last
accumulator as well. -/
def gather (accumulator : Bytes) : List Operation → Except Error (Bytes × Evidence)
  | [] => .ok (accumulator, {})
  | operation :: rest => do
    let step ← Step.ofOperation operation
    let next := step.apply accumulator
    let (final, later) ← gather next rest
    return (final, (ofStep step accumulator next).followedBy later)

/-- A chain may be run in two parts. -/
theorem gather_append (accumulator : Bytes) (operations more : List Operation) :
    gather accumulator (operations ++ more) = do
      let (middle, earlier) ← gather accumulator operations
      let (final, later) ← gather middle more
      return (final, earlier.followedBy later) := by
  induction operations generalizing accumulator with
  | nil =>
    simp only [List.nil_append, gather, ok_bind, empty_followedBy]
    cases gather accumulator more <;> rfl
  | cons operation rest ih =>
    simp only [List.cons_append, gather, ih, bind_assoc]
    refine congrArg _ (funext fun step => ?_)
    cases gather (step.apply accumulator) rest with
    | error e => rfl
    | ok reached =>
      simp only [ok_bind, pure_eq]
      cases gather reached.1 more with
      | error e => rfl
      | ok last => simp [followedBy_assoc]

/-- A run fails with the first kind that is not known. -/
theorem gather_eq_error_iff (accumulator : Bytes) {operations : List Operation} {e : Error} :
    gather accumulator operations = .error e ↔
      ∃ operation, Operation.firstUnknown? operations = some operation ∧
        e = .unhandledOperation operation.kind := by
  induction operations generalizing accumulator with
  | nil => simp [gather, Operation.firstUnknown?]
  | cons operation rest ih =>
    cases hkind : operation.kind? with
    | none =>
      have hstep := Step.ofOperation_of_unknown hkind
      simp [gather, hstep, Operation.firstUnknown?, hkind, eq_comm]
    | some kind =>
      rcases Step.ofOperation_isOk.mpr (Option.isSome_iff_exists.mpr ⟨kind, hkind⟩) with
        ⟨step, hstep⟩
      have hfirst : Operation.firstUnknown? (operation :: rest) =
          Operation.firstUnknown? rest := by
        simp [Operation.firstUnknown?, hkind]
      rw [hfirst, ← ih (step.apply accumulator)]
      simp [gather, hstep, bind_eq_error]

/-- A chain can be run when each of its operations has a known kind. -/
theorem gather_isOk_iff (accumulator : Bytes) (operations : List Operation) :
    (∃ reached, gather accumulator operations = .ok reached) ↔
      ∀ operation ∈ operations, operation.kind?.isSome := by
  rw [← Operation.firstUnknown?_eq_none_iff]
  cases hgather : gather accumulator operations with
  | error e =>
    rcases (gather_eq_error_iff accumulator).mp hgather with ⟨operation, hunknown, _⟩
    simp [hunknown]
  | ok reached =>
    refine ⟨fun _ => ?_, fun _ => ⟨reached, rfl⟩⟩
    refine Option.eq_none_iff_forall_ne_some.mpr fun operation hunknown => ?_
    have hfailed := (gather_eq_error_iff accumulator).mpr ⟨operation, hunknown, rfl⟩
    rw [hgather] at hfailed
    cases hfailed

/-! ### Sorts of evidence -/

section Sorts

variable {α : Type}

/-- A value, unless it is the one that stands for nothing. -/
def present? [DecidableEq α] (nothing value : α) : Option α :=
  if value = nothing then none else some value

theorem present?_of_ne [DecidableEq α] {nothing value : α} (h : value ≠ nothing) :
    present? nothing value = some value :=
  if_neg h

theorem present?_ite [DecidableEq α] (nothing earlier later : α) :
    present? nothing (if later = nothing then earlier else later) =
      (present? nothing later).or (present? nothing earlier) := by
  by_cases hlater : later = nothing
  · simp [present?, hlater]
  · simp [present?, hlater]

theorem getD_present? [DecidableEq α] (nothing value old : α) :
    (present? nothing value).getD old = if value = nothing then old else value := by
  unfold present?
  split <;> rfl

/-- Whether a part of the evidence is one of which the last counts, and which only
operations that meet a condition bring up. -/
structure IsSort (part : Evidence → Option α) (condition : Operation → Bool) : Prop where
  empty : part {} = none
  followedBy : ∀ earlier later : Evidence,
    part (earlier.followedBy later) = (part later).or (part earlier)
  silent : ∀ {operation : Operation} {step : Step} (before after : Bytes),
    Step.ofOperation operation = .ok step → condition operation = false →
      part (ofStep step before after) = none

namespace IsSort

variable {part : Evidence → Option α} {condition : Operation → Bool} {accumulator final : Bytes}
  {evidence : Evidence}

/-- Operations that do not meet the condition bring up nothing of the sort. -/
theorem eq_none (sort : IsSort part condition) {operations : List Operation}
    (h : gather accumulator operations = .ok (final, evidence))
    (silent : ∀ operation ∈ operations, condition operation = false) : part evidence = none := by
  induction operations generalizing accumulator final evidence with
  | nil =>
    cases h
    exact sort.empty
  | cons operation rest ih =>
    rcases List.forall_mem_cons.mp silent with ⟨hfirst, hrest⟩
    rcases bind_eq_ok.mp h with ⟨step, hstep, h⟩
    rcases bind_eq_ok.mp h with ⟨⟨last, later⟩, hlater, h⟩
    cases h
    rw [sort.followedBy, ih hlater hrest, sort.silent _ _ hstep hfirst]
    rfl

/-- Where no operation after it meets the condition, an operation brings up the evidence
of the sort, or else those before it do. -/
theorem eq_of_last (sort : IsSort part condition) {before after : List Operation}
    {operation : Operation}
    (h : gather accumulator (before ++ operation :: after) = .ok (final, evidence))
    (silent : ∀ later ∈ after, condition later = false) :
    ∃ middle earlier step, gather accumulator before = .ok (middle, earlier) ∧
      Step.ofOperation operation = .ok step ∧
      part evidence = (part (ofStep step middle (step.apply middle))).or (part earlier) := by
  rw [gather_append] at h
  rcases bind_eq_ok.mp h with ⟨⟨middle, earlier⟩, hbefore, h⟩
  rcases bind_eq_ok.mp h with ⟨⟨reached, found⟩, hfound, h⟩
  cases h
  rcases bind_eq_ok.mp hfound with ⟨step, hstep, hfound⟩
  rcases bind_eq_ok.mp hfound with ⟨⟨last, later⟩, hlater, hfound⟩
  cases hfound
  refine ⟨middle, earlier, step, hbefore, hstep, ?_⟩
  rw [sort.followedBy, sort.followedBy, sort.eq_none hlater silent, Option.none_or]

/-- Evidence that an operation brings up whatever came before it is that of the last
operation that meets the condition. -/
theorem eq_find? (sort : IsSort part condition) {operations : List Operation}
    {value : Operation → α}
    (brought : ∀ {operation step} (before after : Bytes),
      Step.ofOperation operation = .ok step → condition operation = true →
        part (ofStep step before after) = some (value operation))
    (h : gather accumulator operations = .ok (final, evidence)) :
    part evidence = (operations.reverse.find? condition).map value := by
  cases hfound : operations.reverse.find? condition with
  | none => exact sort.eq_none h (by simpa using hfound)
  | some operation =>
    rcases Operation.exists_last hfound with ⟨before, after, rfl, hmeets, hafter⟩
    rcases sort.eq_of_last h hafter with ⟨middle, earlier, step, _, hstep, hpart⟩
    rw [hpart, brought _ _ hstep hmeets]
    rfl

end IsSort

end Sorts

/-! ### Which attestation decides -/

/-- An attestation brings up what it says. -/
theorem ofStep_of_attestation {operation : Operation} {step : Step}
    (hstep : Step.ofOperation operation = .ok step) (hattests : operation.isAttestation = true)
    (before after : Bytes) :
    ofStep step before after =
      { status := some operation.status
        calendarUrl := operation.calendarUrl
        blockHeight := operation.blockHeight } := by
  have hattest := Step.ofOperation_eq_attest.mpr ⟨hattests, rfl⟩
  rw [hstep] at hattest
  cases hattest
  rfl

/-- No other operation brings up a status, an address or a height. -/
theorem ofStep_of_other {operation : Operation} {step : Step}
    (hstep : Step.ofOperation operation = .ok step) (hother : ¬operation.isAttestation = true)
    (before after : Bytes) :
    (ofStep step before after).status = none ∧ (ofStep step before after).calendarUrl = "" ∧
      (ofStep step before after).blockHeight = 0 := by
  cases step with
  | attest attested => exact absurd (Step.ofOperation_eq_attest.mp hstep).1 hother
  | append value =>
    rw [ofStep]
    split <;> exact ⟨rfl, rfl, rfl⟩
  | prepend value =>
    rw [ofStep]
    split <;> exact ⟨rfl, rfl, rfl⟩
  | _ => exact ⟨rfl, rfl, rfl⟩

theorem isSort_status : IsSort status Operation.isAttestation where
  empty := rfl
  followedBy _ _ := rfl
  silent before after hstep hother :=
    (ofStep_of_other hstep (Bool.eq_false_iff.mp hother) before after).1

theorem isSort_calendarUrl :
    IsSort (fun evidence => present? "" evidence.calendarUrl) Operation.namesCalendar where
  empty := rfl
  followedBy earlier later := present?_ite "" earlier.calendarUrl later.calendarUrl
  silent := by
    intro operation step before after hstep hsilent
    by_cases hattests : operation.isAttestation = true
    · rw [ofStep_of_attestation hstep hattests]
      simpa [present?, Operation.namesCalendar, hattests] using hsilent
    · rw [(ofStep_of_other hstep hattests before after).2.1]
      rfl

/-- The status that a run brings up is that of the last attestation. -/
theorem status_of_gather {accumulator final : Bytes} {operations : List Operation}
    {evidence : Evidence} (h : gather accumulator operations = .ok (final, evidence)) :
    evidence.status = (Operation.lastAttestation? operations).map Operation.status := by
  refine isSort_status.eq_find? (fun before after hstep hattests => ?_) h
  rw [ofStep_of_attestation hstep hattests]

/-- The calendar address that a run brings up is the one that the chain names last. -/
theorem calendarUrl_of_gather {accumulator final : Bytes} {operations : List Operation}
    {evidence : Evidence} (h : gather accumulator operations = .ok (final, evidence)) :
    evidence.calendarUrl = (Operation.lastAddress? operations).getD "" := by
  have hlast : present? "" evidence.calendarUrl = Operation.lastAddress? operations := by
    refine isSort_calendarUrl.eq_find? (fun before after hstep hnames => ?_) h
    rcases Operation.namesCalendar_iff.mp hnames with ⟨hattests, hurl⟩
    rw [ofStep_of_attestation hstep hattests]
    exact present?_of_ne hurl
  rw [← hlast, getD_present?]
  split
  · assumption
  · rfl

end Evidence

/-! ## Running a chain -/

namespace Attestation

/-- An attestation with evidence laid over it. -/
def withEvidence (attestation : Attestation) (evidence : Evidence) : Attestation :=
  { attestation with
    status := evidence.status.getD attestation.status
    calendarUrl :=
      if evidence.calendarUrl = "" then attestation.calendarUrl else evidence.calendarUrl
    blockHeight :=
      if evidence.blockHeight = 0 then attestation.blockHeight else evidence.blockHeight
    timestampMerkleRoot := evidence.timestampMerkleRoot.getD attestation.timestampMerkleRoot
    transactionId := evidence.transactionId.getD attestation.transactionId }

/-- Taking up the evidence of a step is laying it over the attestation. -/
theorem observe_eq_withEvidence (attestation : Attestation) (step : Step) (before after : Bytes) :
    attestation.observe step before after =
      attestation.withEvidence (Evidence.ofStep step before after) := by
  cases step with
  | append value => simp only [observe, Evidence.ofStep]; split <;> rfl
  | prepend value => simp only [observe, Evidence.ofStep]; split <;> rfl
  | _ => rfl

theorem withEvidence_followedBy (attestation : Attestation) (earlier later : Evidence) :
    attestation.withEvidence (earlier.followedBy later) =
      (attestation.withEvidence earlier).withEvidence later := by
  simp only [withEvidence, Evidence.followedBy, Option.getD_or, mk.injEq, true_and, and_true]
  constructor
  · split <;> simp_all
  · split <;> simp_all

/-- Running operations is gathering their evidence and laying it over the attestation. -/
theorem runOperations_eq_gather (accumulator : Bytes) (attestation : Attestation)
    (operations : List Operation) :
    runOperations accumulator attestation operations =
      (fun (final, evidence) => (final, attestation.withEvidence evidence)) <$>
        Evidence.gather accumulator operations := by
  induction operations generalizing accumulator attestation with
  | nil => rfl
  | cons operation rest ih =>
    simp only [runOperations, Evidence.gather, ih]
    cases Step.ofOperation operation with
    | error e => rfl
    | ok step =>
      simp only [ok_bind]
      cases Evidence.gather (step.apply accumulator) rest with
      | error e => rfl
      | ok reached => simp [observe_eq_withEvidence, withEvidence_followedBy]

/-- Running a chain is gathering its evidence and laying it over the attestation. -/
theorem fold_eq_gather (initial : Bytes) (attestation : Attestation) :
    attestation.fold initial =
      (fun (final, evidence) => (attestation.withEvidence evidence).conclude final) <$>
        Evidence.gather initial attestation.operations := by
  simp only [fold, runOperations_eq_gather]
  cases Evidence.gather initial attestation.operations <;> rfl

/-- What running a chain gives, by the evidence in it. -/
theorem fold_eq_ok {initial : Bytes} {attestation folded : Attestation} :
    attestation.fold initial = .ok folded ↔
      ∃ final evidence, Evidence.gather initial attestation.operations = .ok (final, evidence) ∧
        (attestation.withEvidence evidence).conclude final = folded := by
  simp [fold_eq_gather, map_eq_ok]

/-- A chain can be run when each of its operations has a known kind. -/
theorem fold_isOk_iff (initial : Bytes) (attestation : Attestation) :
    (∃ folded, attestation.fold initial = .ok folded) ↔
      ∀ operation ∈ attestation.operations, operation.kind?.isSome := by
  rw [← Evidence.gather_isOk_iff initial, fold_eq_gather]
  cases Evidence.gather initial attestation.operations <;> simp

/-- Running a chain fails with the first kind in it that is not known. -/
theorem fold_eq_error_iff (initial : Bytes) {attestation : Attestation} {e : Error} :
    attestation.fold initial = .error e ↔
      ∃ operation, Operation.firstUnknown? attestation.operations = some operation ∧
        e = .unhandledOperation operation.kind := by
  rw [fold_eq_gather, map_eq_error, Evidence.gather_eq_error_iff]

/-! ### What a run leaves alone -/

/-- Recording the end of a run changes the Merkle root of the block at most. -/
theorem conclude_eq (attestation : Attestation) (accumulator : Bytes) :
    attestation.conclude accumulator =
      { attestation with
        blockMerkleRoot :=
          if attestation.blockHeight = 0 then
            attestation.blockMerkleRoot
          else
            accumulator.reverse } := by
  unfold conclude
  split <;> rfl

/-- Running a chain leaves the chain alone. -/
theorem operations_of_fold {initial : Bytes} {attestation folded : Attestation}
    (h : attestation.fold initial = .ok folded) : folded.operations = attestation.operations := by
  rcases fold_eq_ok.mp h with ⟨final, evidence, _, rfl⟩
  rw [operations_conclude, withEvidence]

/-- The time of submission takes no part in a run. -/
theorem fold_withSubmitted (initial : Bytes) (attestation : Attestation) (submitted : UInt32) :
    { attestation with submitted }.fold initial =
      (fun folded => { folded with submitted }) <$> attestation.fold initial := by
  simp only [fold_eq_gather, conclude_eq]
  cases Evidence.gather initial attestation.operations <;> rfl

/-- Running a chain leaves the time of submission alone. -/
theorem submitted_of_fold {initial : Bytes} {attestation folded : Attestation}
    (h : attestation.fold initial = .ok folded) : folded.submitted = attestation.submitted := by
  rcases fold_eq_ok.mp h with ⟨final, evidence, _, rfl⟩
  rw [conclude_eq, withEvidence]

/-! ### What a run decides -/

/-- The last attestation in a chain decides the status. -/
theorem status_of_fold {initial : Bytes} {attestation folded : Attestation}
    (h : attestation.fold initial = .ok folded) :
    folded.status =
      ((Operation.lastAttestation? attestation.operations).map Operation.status).getD
        attestation.status := by
  rcases fold_eq_ok.mp h with ⟨final, evidence, hgather, rfl⟩
  rw [← Evidence.status_of_gather hgather, conclude_eq, withEvidence]

/-- The last attestation in a chain that names a calendar decides the address. -/
theorem calendarUrl_of_fold {initial : Bytes} {attestation folded : Attestation}
    (h : attestation.fold initial = .ok folded) :
    folded.calendarUrl =
      (Operation.lastAddress? attestation.operations).getD attestation.calendarUrl := by
  rcases fold_eq_ok.mp h with ⟨final, evidence, hgather, rfl⟩
  simp only [conclude_eq, withEvidence, Evidence.calendarUrl_of_gather hgather]
  cases hlast : Operation.lastAddress? attestation.operations with
  | none => simp
  | some address => simp [Operation.ne_empty_of_lastAddress? hlast]

/-! ### Running a chain again -/

/-- The Merkle root that the end of an earlier run recorded does not survive the
end of a later one: where there was a height to record it for, there still is. -/
theorem conclude_withEvidence_conclude (attestation : Attestation) (evidence : Evidence)
    (middle final : Bytes) :
    ((attestation.conclude middle).withEvidence evidence).conclude final =
      (attestation.withEvidence evidence).conclude final := by
  by_cases hheight : attestation.blockHeight = 0
  · have hidle : attestation.conclude middle = attestation := if_pos hheight
    rw [hidle]
  · have hlater : (attestation.withEvidence evidence).blockHeight ≠ 0 := by
      simp only [withEvidence]
      split <;> assumption
    simp_all [conclude_eq, withEvidence]

/-- Running a chain, extending it and running it again is the same as running
the extended chain once. -/
theorem fold_extended {initial : Bytes} {attestation folded : Attestation}
    (h : attestation.fold initial = .ok folded) (more : List Operation) :
    { folded with operations := attestation.operations ++ more }.fold initial =
      { attestation with operations := attestation.operations ++ more }.fold initial := by
  rcases fold_eq_ok.mp h with ⟨middle, earlier, hgather, rfl⟩
  simp only [fold_eq_gather, Evidence.gather_append, hgather, ok_bind]
  cases Evidence.gather middle more with
  | error e => rfl
  | ok reached =>
    rcases reached with ⟨final, later⟩
    have hagain := conclude_withEvidence_conclude
      ({ attestation with operations := attestation.operations ++ more }.withEvidence earlier)
      (earlier.followedBy later) middle final
    rw [← withEvidence_followedBy, ← Evidence.followedBy_assoc, Evidence.followedBy_self] at hagain
    simp only [ok_bind, pure_eq, map_ok, ← hagain]
    simp only [conclude_eq]
    rfl

/-- What an earlier run left in an attestation never shows.  However its chain has grown since,
running it again gives what a single run of the whole chain gives, or fails as that does; and if
the chain has not grown, nothing changes. -/
theorem refold_append {initial : Bytes} {attestation folded : Attestation}
    (h : attestation.fold initial = .ok folded) :
    (∀ more, { folded with operations := folded.operations ++ more }.fold initial =
      { attestation with operations := attestation.operations ++ more }.fold initial) ∧
    folded.fold initial = .ok folded := by
  have hagain : ∀ more, { folded with operations := folded.operations ++ more }.fold initial =
      { attestation with operations := attestation.operations ++ more }.fold initial := by
    intro more
    rw [operations_of_fold h]
    exact fold_extended h more
  refine ⟨hagain, ?_⟩
  have hsame := hagain []
  rw [List.append_nil, List.append_nil] at hsame
  exact hsame.trans h

/-- An attestation with a height, a Merkle root and a status that its chain does not explain. -/
def unexplained : Attestation :=
  { calendarUrl := "a", submitted := 7, status := -1, blockHeight := 9, blockMerkleRoot := [0x01]
    operations := [.append [0x2a], .anchored .bitcoin 0] }

/-- What running that chain makes of it. -/
def unexplainedRun : Attestation :=
  { unexplained with status := AttestationStatus.bitcoin.code, blockMerkleRoot := [0x2a, 0x2b] }

/-- What the chain does not explain stays when the attestation is run again, however
it goes on. -/
theorem refold_append_unexplained :
    unexplained.fold [0x2b] = .ok unexplainedRun ∧
      (∀ more,
        { unexplainedRun with operations := unexplainedRun.operations ++ more }.fold [0x2b] =
          { unexplained with operations := unexplained.operations ++ more }.fold [0x2b]) ∧
      unexplainedRun.fold [0x2b] = .ok unexplainedRun := by
  have hran : unexplained.fold [0x2b] = .ok unexplainedRun := rfl
  exact ⟨hran, refold_append hran⟩

end Attestation

end CalendarStamp
