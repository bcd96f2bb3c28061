import CalendarStamp.Step

/-!
# Attesting operations

An operation that attests does not change the accumulator, but it decides much
else: the first one in a chain ends the derivation of the lookup key, and the
last one tells how far the attestation has come.

Main results:

- Theorem `deriveKey_append_of_unattested`: as long as a chain does not attest,
  what is appended goes on from its key.
- Theorem `deriveKey_takeWhile`: what stands before the first attestation decides
  the key.
- Theorem `deriveKey_append`: the key of a chain that goes on, in both cases.
- Theorem `Operation.exists_last`: a chain splits at the last operation that meets
  a condition.
-/

namespace CalendarStamp

/-! ## Operations that attest -/

namespace Operation

/-- Whether an operation attests what was reached. -/
def isAttestation (operation : Operation) : Bool :=
  operation.kind? = some .attestation

/-- Whether an operation attests what was reached and names a calendar. -/
def namesCalendar (operation : Operation) : Bool :=
  operation.isAttestation && operation.calendarUrl ≠ ""

theorem namesCalendar_iff {operation : Operation} :
    operation.namesCalendar = true ↔
      operation.isAttestation = true ∧ operation.calendarUrl ≠ "" := by
  simp [namesCalendar]

/-- The last operation of a chain that attests. -/
def lastAttestation? (operations : List Operation) : Option Operation :=
  operations.reverse.find? isAttestation

/-- The calendar address that a chain names last. -/
def lastAddress? (operations : List Operation) : Option String :=
  (operations.reverse.find? namesCalendar).map calendarUrl

/-- The first operation of a chain whose kind is not known. -/
def firstUnknown? (operations : List Operation) : Option Operation :=
  operations.find? fun operation => operation.kind?.isNone

theorem firstUnknown?_eq_none_iff {operations : List Operation} :
    firstUnknown? operations = none ↔ ∀ operation ∈ operations, operation.kind?.isSome := by
  simp [firstUnknown?, Option.isSome_iff_ne_none]

theorem firstUnknown?_append (operations more : List Operation) :
    firstUnknown? (operations ++ more) = (firstUnknown? operations).or (firstUnknown? more) :=
  List.find?_append

/-- A search from the end splits the operations at the last one that meets the condition. -/
theorem exists_last {condition : Operation → Bool} {operations : List Operation}
    {operation : Operation} (h : operations.reverse.find? condition = some operation) :
    ∃ before after, operations = before ++ operation :: after ∧ condition operation = true ∧
      ∀ later ∈ after, condition later = false := by
  rcases List.find?_eq_some_iff_append.mp h with ⟨hmeets, after, before, hsplit, hafter⟩
  rw [List.reverse_eq_iff] at hsplit
  refine ⟨before.reverse, after.reverse, ?_, hmeets, by simpa using hafter⟩
  simpa using hsplit

theorem lastAttestation?_append (operations more : List Operation) :
    lastAttestation? (operations ++ more) =
      (lastAttestation? more).or (lastAttestation? operations) := by
  simp [lastAttestation?]

/-- The empty text is no address that a chain names. -/
theorem ne_empty_of_lastAddress? {operations : List Operation} {address : String}
    (h : lastAddress? operations = some address) : address ≠ "" := by
  rcases Option.map_eq_some_iff.mp h with ⟨operation, hfound, rfl⟩
  have hnames := List.find?_some hfound
  simp_all [namesCalendar]

end Operation

/-- An operation runs as an attestation when it is one. -/
theorem Step.ofOperation_eq_attest {operation attested : Operation} :
    Step.ofOperation operation = .ok (.attest attested) ↔
      operation.isAttestation ∧ attested = operation := by
  unfold Step.ofOperation Operation.isAttestation
  cases operation.kind? with
  | none => simp
  | some kind => cases kind <;> simp [eq_comm]

/-- An operation can be run when its kind is known. -/
theorem Step.ofOperation_isOk {operation : Operation} :
    (∃ step, Step.ofOperation operation = .ok step) ↔ operation.kind?.isSome := by
  unfold Step.ofOperation
  cases operation.kind? with
  | none => simp
  | some kind => cases kind <;> simp

/-- An operation of unknown kind cannot be run. -/
theorem Step.ofOperation_of_unknown {operation : Operation} (h : operation.kind? = none) :
    Step.ofOperation operation = .error (.unhandledOperation operation.kind) := by
  rw [ofOperation, h]

/-! ## The first attestation -/

/-- Any other operation that can be run leads on from what it makes of the
accumulator. -/
theorem deriveKey_step {operation : Operation} {step : Step}
    (hstep : Step.ofOperation operation = .ok step) (hother : operation.isAttestation = false)
    (accumulator : Bytes) (rest : List Operation) :
    deriveKey accumulator (operation :: rest) = deriveKey (step.apply accumulator) rest := by
  simp only [deriveKey, hstep, Outcome.ok_bind]
  cases step with
  | attest attested => simp [(Step.ofOperation_eq_attest.mp hstep).1] at hother
  | _ => rfl

/-- As long as a chain does not attest, what is appended to it goes on from its key. -/
theorem deriveKey_append_of_unattested {operations : List Operation}
    (h : ∀ operation ∈ operations, operation.isAttestation = false) (accumulator : Bytes)
    (more : List Operation) :
    deriveKey accumulator (operations ++ more) =
      deriveKey accumulator operations >>= fun key => deriveKey key.bytes more := by
  induction operations generalizing accumulator with
  | nil => rfl
  | cons operation rest ih =>
    rcases List.forall_mem_cons.mp h with ⟨hfirst, hrest⟩
    rw [List.cons_append]
    cases hstep : Step.ofOperation operation with
    | error e =>
      rw [deriveKey_unknown hstep, deriveKey_unknown hstep]
      rfl
    | ok step =>
      rw [deriveKey_step hstep hfirst, deriveKey_step hstep hfirst]
      exact ih hrest _

/-- The key of a chain is that of the operations before its first attestation. -/
theorem deriveKey_of_first_attestation {before after : List Operation} {operation : Operation}
    (h : ∀ earlier ∈ before, earlier.isAttestation = false)
    (hattests : operation.isAttestation = true) (accumulator : Bytes) :
    deriveKey accumulator (before ++ operation :: after) = deriveKey accumulator before := by
  have hstep := Step.ofOperation_eq_attest.mpr ⟨hattests, rfl⟩
  rw [deriveKey_append_of_unattested h]
  cases deriveKey accumulator before with
  | error e => rfl
  | ok key => exact deriveKey_attest hstep key.bytes after

/-- A chain that attests splits at its first attestation. -/
theorem Operation.exists_first_attestation {operations : List Operation}
    (h : ∃ operation ∈ operations, operation.isAttestation) :
    ∃ before operation after, operations = before ++ operation :: after ∧
      operation.isAttestation = true ∧ ∀ earlier ∈ before, earlier.isAttestation = false := by
  have hfound : (operations.find? isAttestation).isSome := by
    simpa only [List.find?_isSome] using h
  rcases Option.isSome_iff_exists.mp hfound with ⟨operation, hfound⟩
  rcases List.find?_eq_some_iff_append.mp hfound with ⟨hattests, before, after, hsplit, hbefore⟩
  exact ⟨before, operation, after, hsplit, hattests, by simpa using hbefore⟩

/-- Once a chain attests, its key does not depend on what is appended. -/
theorem deriveKey_append_of_attested {operations : List Operation}
    (h : ∃ operation ∈ operations, operation.isAttestation) (accumulator : Bytes)
    (more : List Operation) :
    deriveKey accumulator (operations ++ more) = deriveKey accumulator operations := by
  rcases Operation.exists_first_attestation h with
    ⟨before, operation, after, rfl, hattests, hbefore⟩
  rw [List.append_assoc, List.cons_append, deriveKey_of_first_attestation hbefore hattests,
    deriveKey_of_first_attestation hbefore hattests]

/-- What stands before the first attestation of a chain has the key of the chain. -/
theorem deriveKey_takeWhile (accumulator : Bytes) (operations : List Operation) :
    deriveKey accumulator (operations.takeWhile fun operation => !operation.isAttestation) =
      deriveKey accumulator operations := by
  by_cases hattests : ∃ operation ∈ operations, operation.isAttestation
  · rcases Operation.exists_first_attestation hattests with
      ⟨before, operation, after, rfl, hoperation, hbefore⟩
    rw [List.takeWhile_append_of_pos (by simpa using hbefore),
      List.takeWhile_cons_of_neg (by simp [hoperation]), List.append_nil,
      deriveKey_of_first_attestation hbefore hoperation]
  · have hwhole : (operations ++ []).takeWhile (fun operation => !operation.isAttestation) =
        operations ++ [] :=
      List.takeWhile_append_of_pos (by simpa using hattests)
    rw [List.append_nil] at hwhole
    rw [hwhole]

/-- The key of a chain depends on the operations before its first attestation alone, whatever
stands behind it.  So what is appended to a chain that attests changes neither its key nor its
failure, and what is appended to any other chain goes on from its key. -/
theorem deriveKey_append (accumulator : Bytes) (operations more : List Operation) :
    deriveKey accumulator operations =
        deriveKey accumulator (operations.takeWhile fun operation => !operation.isAttestation) ∧
      deriveKey accumulator (operations ++ more) =
        if operations.any Operation.isAttestation then
          deriveKey accumulator operations
        else
          deriveKey accumulator operations >>= fun key => deriveKey key.bytes more := by
  refine ⟨(deriveKey_takeWhile accumulator operations).symm, ?_⟩
  by_cases hattests : operations.any Operation.isAttestation = true
  · rw [if_pos hattests]
    exact deriveKey_append_of_attested (List.any_eq_true.mp hattests) accumulator more
  · have hunattested : ∀ operation ∈ operations, operation.isAttestation = false := by
      simpa using hattests
    rw [if_neg hattests]
    exact deriveKey_append_of_unattested hunattested accumulator more

end CalendarStamp
