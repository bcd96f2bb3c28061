import CalendarStamp.Proofs.LookupReplies

/-!
# Chains that are read can be run

Reading a chain and running it each know which kinds of operations there are,
and each has an error of its own for a kind that does not exist.  They agree:
what can be read can be run, from whatever bytes and over whatever record.  So
an answer is refused for how it reads, never for what it would do, and no chain
that answers build up over time ever gets stuck.

Main results:

- Theorem `Chain.isOfReading_of_parse`: a chain that cannot be read fails with an
  error of reading, which no unknown kind in a record gives.
- Theorem `importResponse_eq_error`: an answer to a new digest is refused exactly
  when it cannot be read.
- Theorem `upgrade_eq_error_iff`: the three reasons to refuse a continuation.
- Theorem `results_handled`: no action of a history of answers meets an unknown kind.
- Theorem `read_chains_run`: all of this together.
-/

namespace CalendarStamp

open Outcome

/-! ## Errors of reading -/

/-- Whether an error says that bytes cannot be read as a chain. -/
def Error.isOfReading : Error → Bool
  | truncatedInput _ _ | varintOverflow | unsupportedOperation _ | invalidCalendarUrl => true
  | _ => false

namespace Varint

theorem isOfReading_of_readGroups {input : Bytes} {scale value : Nat} {bytes : Bytes} {e : Error}
    (h : readGroups input scale value bytes = .error e) : e.isOfReading = true := by
  induction bytes generalizing scale value with
  | nil =>
    cases h
    rfl
  | cons byte rest ih =>
    rw [readGroups] at h
    split at h
    · cases h
      rfl
    · split at h
      · exact ih h
      · cases h

theorem isOfReading_of_readBlock {bytes : Bytes} {e : Error}
    (h : readBlock bytes = .error e) : e.isOfReading = true := by
  rcases bind_eq_error.mp h with h | ⟨⟨size, rest⟩, _, h⟩
  · exact isOfReading_of_readGroups h
  · simp only at h
    split at h
    · cases h
    · cases h
      rfl

end Varint

namespace Chain

theorem isOfReading_of_readPayload {status : AttestationStatus} {payload : Bytes} {e : Error}
    (h : readPayload status payload = .error e) : e.isOfReading = true := by
  cases status with
  | pending =>
    rcases bind_eq_error.mp h with h | ⟨⟨url, _⟩, _, h⟩
    · exact Varint.isOfReading_of_readBlock h
    · simp only at h
      split at h
      · cases h
      · cases h
        rfl
  | bitcoin | litecoin =>
    rcases bind_eq_error.mp h with h | ⟨⟨height, _⟩, _, h⟩
    · exact Varint.isOfReading_of_readGroups h
    · simp only at h
      split at h
      · cases h
      · cases h
        rfl
  | invalid | unknown => cases h

theorem isOfReading_of_readAttestation {bytes : Bytes} {e : Error}
    (h : readAttestation bytes = .error e) : e.isOfReading = true := by
  unfold readAttestation at h
  split at h
  · cases h
    rfl
  · rcases bind_eq_error.mp h with h | ⟨⟨payload, _⟩, _, h⟩
    · exact Varint.isOfReading_of_readBlock h
    · rcases bind_eq_error.mp h with h | ⟨_, _, h⟩
      · exact isOfReading_of_readPayload h
      · cases h

theorem isOfReading_of_readBody {kind : OperationKind} {bytes : Bytes} {e : Error}
    (h : readBody kind bytes = .error e) : e.isOfReading = true := by
  cases kind with
  | attestation => exact isOfReading_of_readAttestation h
  | sha1 | ripemd160 | sha256 => cases h
  | append | prepend =>
    rcases bind_eq_error.mp h with h | ⟨_, _, h⟩
    · exact Varint.isOfReading_of_readBlock h
    · cases h

/-- A chain that cannot be read fails with an error of reading. -/
theorem isOfReading_of_parse {bytes : Bytes} {e : Error} (h : parse bytes = .error e) :
    e.isOfReading = true := by
  refine error_of_parse (fun e => e.isOfReading = true) (fun {tag bytes e} hread => ?_) h
  unfold readOperation at hread
  split at hread
  · exact isOfReading_of_readBody hread
  · cases hread
    rfl

/-- A chain that was read leads to a key, from whatever bytes. -/
theorem exists_deriveKey_of_parse {bytes : Bytes} {operations : List Operation}
    (h : parse bytes = .ok operations) (initial : Bytes) :
    ∃ key, deriveKey initial operations = .ok key :=
  Timestamp.exists_deriveKey (isSome_kind?_of_parse h) initial

/-- A chain that was read can be run, from whatever bytes and over whatever record. -/
theorem exists_fold_of_parse {bytes : Bytes} {operations : List Operation}
    (h : parse bytes = .ok operations) (initial : Bytes) {attestation : Attestation}
    (hchain : attestation.operations = operations) :
    ∃ folded, attestation.fold initial = .ok folded := by
  refine (Attestation.fold_isOk_iff initial attestation).mpr ?_
  rw [hchain]
  exact isSome_kind?_of_parse h

end Chain

namespace Timestamp

/-! ## Answers that are refused -/

/-- An answer to a new digest is refused exactly when it cannot be read. -/
theorem importResponse_eq_error {timestamp : Timestamp} {now : UInt32} {bytes : Bytes}
    {e : Error} :
    timestamp.importResponse now bytes = .error e ↔ Chain.parse bytes = .error e := by
  cases hparsed : Chain.parse bytes with
  | error cause => simp [importResponse_eq, hparsed]
  | ok operations =>
    have hchain : (Attestation.ofOperations operations).operations = operations := rfl
    rcases Chain.exists_fold_of_parse hparsed timestamp.digestHash.bytes hchain with
      ⟨attestation, hran⟩
    simp [importResponse_eq, hparsed, hran]

/-- A continuation is refused when no attestation is found under the key, when
the one that is found is final, or when it cannot be read. -/
theorem upgrade_eq_error_iff {timestamp : Timestamp} (h : timestamp.Rederivable)
    {key : CalendarKey} {bytes : Bytes} {e : Error} :
    timestamp.upgrade key bytes = .error e ↔
      timestamp.positionOfKey? key = none ∧ e = .notFound ∨
      ∃ index current, timestamp.positionOfKey? key = some index ∧
        timestamp.attestations[index]? = some current ∧
        (current.isPending = false ∧ e = .alreadyUpgraded ∨
          current.isPending = true ∧ Chain.parse bytes = .error e) := by
  rw [upgrade_eq_error]
  constructor
  · intro refusal
    cases refusal with
    | unfound missing => exact .inl ⟨missing, rfl⟩
    | final found held settled => exact .inr ⟨_, _, found, held, .inl ⟨settled, rfl⟩⟩
    | unread found held pending unread => exact .inr ⟨_, _, found, held, .inr ⟨pending, unread⟩⟩
    | unrun found held pending parsed unrun =>
      rcases extended_isOk (h _ (List.mem_of_getElem? held)) parsed with ⟨result, hran⟩
      rw [hran] at unrun
      cases unrun
  · rintro (⟨missing, rfl⟩ | ⟨index, current, found, held, ⟨settled, rfl⟩ | ⟨pending, unread⟩⟩)
    · exact .unfound missing
    · exact .final found held settled
    · exact .unread found held pending unread

/-! ## Histories without unknown kinds -/

/-- Whether a result is no error about an operation of unknown kind. -/
def Handled (result : Except Error Result) : Prop :=
  ∀ kind : Int32, result ≠ .error (.unhandledOperation kind)

/-- An error of reading is none about an operation of unknown kind. -/
theorem handled_of_isOfReading {e : Error} (h : e.isOfReading = true) : Handled (.error e) := by
  intro kind hkind
  cases hkind
  cases h

/-- An answer to a timestamp whose attestations follow from their chains meets no
operation of unknown kind. -/
theorem step_handled {timestamp : Timestamp} (h : timestamp.Rederivable) {action : Action}
    (answer : action.isAnswer = true) : Handled (timestamp.step action).1 := by
  cases hperform : timestamp.perform action with
  | ok outcome =>
    intro kind
    simp [step_of_ok hperform]
  | error e =>
    rw [step_of_error hperform]
    cases action with
    | importResponse now bytes =>
      rw [perform_importResponse] at hperform
      have hunread := importResponse_eq_error.mp (map_eq_error.mp hperform)
      exact handled_of_isOfReading (Chain.isOfReading_of_parse hunread)
    | upgrade key bytes =>
      rw [perform_upgrade] at hperform
      rcases (upgrade_eq_error_iff h).mp (map_eq_error.mp hperform) with
        ⟨_, rfl⟩ | ⟨_, _, _, _, ⟨_, rfl⟩ | ⟨_, hunread⟩⟩
      · intro kind hkind
        cases hkind
      · intro kind hkind
        cases hkind
      · exact handled_of_isOfReading (Chain.isOfReading_of_parse hunread)
    | stamp clock transport urls => cases hperform
    | update transport => cases hperform
    | _ => cases answer

/-- No action of a history of answers meets an operation of unknown kind. -/
theorem results_handled {timestamp : Timestamp} (h : timestamp.Rederivable)
    {actions : List Action} (answers : ∀ action ∈ actions, action.isAnswer = true) :
    ∀ result ∈ timestamp.results actions, Handled result := by
  induction actions generalizing timestamp with
  | nil =>
    intro result hmem
    cases hmem
  | cons action rest ih =>
    rcases List.forall_mem_cons.mp answers with ⟨hfirst, hrest⟩
    have hnext : (timestamp.step action).2.Rederivable := by
      have hafter : (timestamp.after [action]).Rederivable :=
        rederivable_after_answers (by simpa using hfirst) h
      exact hafter
    exact List.forall_mem_cons.mpr ⟨step_handled h hfirst, ih hnext hrest⟩

/-- The single actions that answers come to are answers. -/
theorem isAnswer_singles {timestamp : Timestamp} {actions : List Action}
    (answers : ∀ action ∈ actions, action.isAnswer = true) :
    ∀ single ∈ timestamp.singles actions, single.isAnswer = true := by
  intro single hmem
  rcases (mem_singles hmem).2 with haction | hanswer
  · exact answers single haction
  · exact hanswer

/-- An update of a timestamp whose attestations follow from their chains notes no
attestation without a key. -/
theorem keyEvents_eq_nil {timestamp : Timestamp} (h : timestamp.Rederivable) :
    timestamp.keyEvents = [] := by
  refine List.filterMap_eq_nil_iff.mpr fun attestation hmem => ?_
  rcases exists_calendarKey h (List.mem_filter.mp hmem).1 with ⟨key, hkey⟩
  rw [hkey]

/-- A chain that can be read leads to a key and can be run, from whatever bytes
and over whatever record.  So an answer to a new digest is refused exactly when it
cannot be read, with the error of reading it.  In every state of a history of
answers that starts without attestations, neither a batch nor one of the imports
and upgrades that it comes to meets an operation of unknown kind, every
attestation has its key, and a continuation is refused for one of three reasons:
nothing is found under the key, what is found is final, or the continuation cannot
be read. -/
theorem read_chains_run :
    (∀ (bytes : Bytes) (operations : List Operation), Chain.parse bytes = .ok operations →
      ∀ initial : Bytes,
        (∃ key, deriveKey initial operations = .ok key) ∧
          ∀ attestation : Attestation, attestation.operations = operations →
            ∃ folded, attestation.fold initial = .ok folded) ∧
      (∀ (timestamp : Timestamp) (now : UInt32) (bytes : Bytes) (e : Error),
        timestamp.importResponse now bytes = .error e ↔ Chain.parse bytes = .error e) ∧
      ∀ timestamp : Timestamp, timestamp.attestations = [] →
        ∀ actions : List Action, (∀ action ∈ actions, action.isAnswer = true) →
          (∀ result ∈ timestamp.results actions, ∀ kind,
            result ≠ .error (.unhandledOperation kind)) ∧
          (∀ result ∈ timestamp.results (timestamp.singles actions), ∀ kind,
            result ≠ .error (.unhandledOperation kind)) ∧
          (timestamp.after actions).keyEvents = [] ∧
          ∀ (key : CalendarKey) (bytes : Bytes) (e : Error),
            (timestamp.after actions).upgrade key bytes = .error e ↔
              (timestamp.after actions).positionOfKey? key = none ∧ e = .notFound ∨
              ∃ index current, (timestamp.after actions).positionOfKey? key = some index ∧
                (timestamp.after actions).attestations[index]? = some current ∧
                (current.isPending = false ∧ e = .alreadyUpgraded ∨
                  current.isPending = true ∧ Chain.parse bytes = .error e) := by
  refine ⟨?_, fun timestamp now bytes e => importResponse_eq_error, ?_⟩
  · intro bytes operations hparsed initial
    exact ⟨Chain.exists_deriveKey_of_parse hparsed initial,
      fun attestation hchain => Chain.exists_fold_of_parse hparsed initial hchain⟩
  · intro timestamp unstamped actions answers
    have hstart : timestamp.Rederivable := by
      intro attestation hmem
      simp [unstamped] at hmem
    have hreached := rederivable_after_answers answers hstart
    exact ⟨results_handled hstart answers, results_handled hstart (isAnswer_singles answers),
      keyEvents_eq_nil hreached,
      fun key bytes e => upgrade_eq_error_iff hreached⟩

/-- A promise that is fulfilled, and one of another calendar that is not. -/
def oneFulfilled : List Action :=
  [.importResponse 7 (promise 0x61), .upgrade specimenKey anchorage,
    .importResponse 7 ([0xf0, 0x01, 0x2a] ++ promise 0x62)]

/-- The continuation runs from anywhere, and an upgrade fails only for a missing key, a
final attestation or an unknown tag. -/
theorem read_chains_run_oneFulfilled :
    specimen.attestations = [] ∧
      (∀ action ∈ oneFulfilled, action.isAnswer = true) ∧
      (∃ operations, Chain.parse anchorage = .ok operations ∧
        ∃ folded, Attestation.fold [] { blockHeight := 9, operations } = .ok folded) ∧
      specimen.importResponse 7 [0x42] = .error (.unsupportedOperation 0x42) ∧
      (specimen.after oneFulfilled).keyEvents = [] ∧
      (specimen.after oneFulfilled).upgrade ⟨[]⟩ [0x42] = .error .notFound ∧
      (specimen.after oneFulfilled).upgrade specimenKey [0x42] = .error .alreadyUpgraded ∧
      (specimen.after oneFulfilled).upgrade ⟨specimenKey.bytes ++ [0x2a]⟩ [0x42] =
        .error (.unsupportedOperation 0x42) := by
  have hread : (Chain.parse anchorage).toOption.isSome = true := by decide +kernel
  rcases Option.isSome_iff_exists.mp hread with ⟨operations, hread⟩
  have hparsed := toOption_eq_some.mp hread
  have hunread : Chain.parse [0x42] = .error (.unsupportedOperation 0x42) := by
    rw [Chain.parse_cons]
    rfl
  have hanswers : ∀ action ∈ oneFulfilled, action.isAnswer = true := by decide
  have ⟨hmissing, hfirst, hsecond, hfinal, hwaits⟩ :
      (specimen.after oneFulfilled).positionOfKey? ⟨[]⟩ = none ∧
        (specimen.after oneFulfilled).positionOfKey? specimenKey = some 0 ∧
        (specimen.after oneFulfilled).positionOfKey? ⟨specimenKey.bytes ++ [0x2a]⟩ = some 1 ∧
        ((specimen.after oneFulfilled).attestations.getD 0 {}).isPending = false ∧
        ((specimen.after oneFulfilled).attestations.getD 1 {}).isPending = true := by
    decide +kernel
  rcases read_chains_run with ⟨hrun, himport, hreached⟩
  rcases hreached specimen rfl oneFulfilled hanswers with ⟨_, _, hkeys, hrefused⟩
  refine ⟨rfl, hanswers, ⟨operations, hparsed, (hrun _ _ hparsed []).2 _ rfl⟩,
    (himport _ _ _ _).mpr hunread, hkeys, (hrefused _ _ _).mpr (.inl ⟨hmissing, rfl⟩),
    (hrefused _ _ _).mpr (.inr ⟨0, _, hfirst, getElem?_of_positionOfKey? hfirst, .inl ?_⟩),
    (hrefused _ _ _).mpr (.inr ⟨1, _, hsecond, getElem?_of_positionOfKey? hsecond, .inr ?_⟩)⟩
  · exact ⟨hfinal, rfl⟩
  · exact ⟨hwaits, hunread⟩

end Timestamp

end CalendarStamp
