import CalendarStamp.Proofs.AttestingOperation
import CalendarStamp.Proofs.ChainGrammar

/-!
# Chains that are written

Writing a chain gives its strict spelling, as far as there is one: an operation
of unknown kind and an attestation that no calendar sends cannot be written.
What is written does not hold all that an operation may hold, but reading it
gives back what the bytes carry.

Main results:

- Theorem `write_of_isOperation`: the strict spelling of an operation is written.
- Theorem `isOperation_of_write`: what is written is the strict spelling of what
  the bytes carry.
- Theorem `parse_of_serialize`: a chain that was written reads back as what its
  bytes carry.
- Theorems `serialize_isOk_iff` and `serialize_eq_error_iff`: which chains can be
  written, and why others cannot.
-/

namespace CalendarStamp

open Outcome

/-! ## What can be written, and what is carried -/

namespace Operation

/-- Whether the status of an attestation is one that calendars send. -/
def hasSentStatus (operation : Operation) : Bool :=
  operation.status = AttestationStatus.pending.code ||
    operation.status = AttestationStatus.bitcoin.code ||
      operation.status = AttestationStatus.litecoin.code

/-- Whether an operation can be written: its kind is known, and if it attests,
calendars send its status. -/
def isWritable (operation : Operation) : Bool :=
  operation.kind?.isSome && (!operation.isAttestation || operation.hasSentStatus)

/-- Why an operation that cannot be written is refused: for its kind if that is
not known, and else for its status. -/
def refusal (operation : Operation) : Error :=
  if operation.kind?.isSome then
    .unserializableAttestation operation.status
  else
    .unhandledOperation operation.kind

/-- Whether an operation puts a value in front of the bytes or behind them. -/
def putsValue (operation : Operation) : Bool :=
  operation.kind? = some .append || operation.kind? = some .prepend

/-- Whether an operation attests with a status. -/
def attestsAs (operation : Operation) (status : AttestationStatus) : Bool :=
  operation.isAttestation && operation.status = status.code

/-- An operation with all that the bytes of its kind do not carry left out. -/
def carried (operation : Operation) : Operation where
  kind := operation.kind
  value := if operation.putsValue then operation.value else []
  status := if operation.isAttestation then operation.status else 0
  calendarUrl := if operation.attestsAs .pending then operation.calendarUrl else ""
  blockHeight :=
    if operation.attestsAs .bitcoin || operation.attestsAs .litecoin then
      operation.blockHeight
    else
      0

/-- The bytes of an operation that does not attest carry a value at most. -/
theorem carried_of_kind {operation : Operation} {kind : OperationKind}
    (hkind : operation.kind? = some kind) (hother : kind ≠ .attestation) :
    operation.carried =
      { kind := kind.code
        value := if kind = .append ∨ kind = .prepend then operation.value else [] } := by
  have hcode : operation.kind = kind.code := (OperationKind.code_of_ofCode? hkind).symm
  have hattests : operation.isAttestation = false := by
    simpa [isAttestation, hkind] using hother
  simp [carried, putsValue, attestsAs, hattests, hkind, hcode]

/-- The bytes of an attestation carry its status, and what belongs to the status. -/
theorem carried_of_status {operation : Operation} {status : AttestationStatus}
    (hkind : operation.kind? = some .attestation) (hstatus : operation.status = status.code) :
    operation.carried =
      { kind := OperationKind.attestation.code
        status := status.code
        calendarUrl := if status = .pending then operation.calendarUrl else ""
        blockHeight :=
          if status = .bitcoin ∨ status = .litecoin then operation.blockHeight else 0 } := by
  have hcode : operation.kind = OperationKind.attestation.code :=
    (OperationKind.code_of_ofCode? hkind).symm
  have hattests : operation.isAttestation = true := by simp [isAttestation, hkind]
  have hsame : ∀ other : AttestationStatus, status.code = other.code ↔ status = other := by
    intro other
    constructor
    · intro hcodes
      have hknown := congrArg AttestationStatus.ofCode? hcodes
      simpa using hknown
    · rintro rfl
      rfl
  simp [carried, putsValue, attestsAs, hattests, hkind, hcode, hstatus, hsame]

end Operation

namespace Chain

open Varint Spelling

/-! ## Blocks and payloads -/

/-- A block that is written is the strict one. -/
theorem isBlock_strict_iff {block content : Bytes} :
    strict.IsBlock block content ↔ content.length < limit ∧ block = writeBlock content := by
  constructor
  · rintro ⟨digits, hshortest, rfl⟩
    rcases isShortest_iff.mp hshortest with ⟨hlimit, rfl⟩
    exact ⟨hlimit, rfl⟩
  · rintro ⟨hlimit, rfl⟩
    exact ⟨write content.length, isShortest_iff.mpr ⟨hlimit, rfl⟩, rfl⟩

theorem length_le_length_writeBlock (content : Bytes) :
    content.length ≤ (writeBlock content).length := by
  rw [writeBlock, List.length_append]
  omega

theorem toNat_lt_limit (height : UInt32) : height.toNat < limit := by
  have hheight := height.toNat_lt
  have hlimit : heightLimit ≤ limit := by decide
  exact Nat.lt_of_lt_of_le hheight hlimit

theorem isPayload_writePayload_pending {operation : Operation}
    (h : (Utf8.encode operation.calendarUrl).length < limit) :
    strict.IsPayload .pending (writePayload .pending operation)
      (.pending operation.calendarUrl) := by
  have hblock := isBlock_strict_iff.mpr ⟨h, rfl⟩
  have hpayload : strict.IsPayload .pending
      (writeBlock (Utf8.encode operation.calendarUrl) ++ []) (.pending operation.calendarUrl) :=
    .pending hblock rfl
  rwa [List.append_nil] at hpayload

theorem isPayload_writePayload_anchored {status : AttestationStatus} (operation : Operation)
    (h : status = .bitcoin ∨ status = .litecoin) :
    strict.IsPayload status (writePayload status operation)
      (.anchored status operation.blockHeight) := by
  have hshortest := isShortest_iff.mpr ⟨toNat_lt_limit operation.blockHeight, rfl⟩
  have hpayload : strict.IsPayload status (write operation.blockHeight.toNat ++ [])
      (.anchored status operation.blockHeight) := .anchored h hshortest rfl
  rw [List.append_nil] at hpayload
  rcases h with rfl | rfl <;> exact hpayload

/-- The strict payload of an attestation is the one that is written for it. -/
theorem eq_writePayload_of_isPayload {status : AttestationStatus} {payload : Bytes}
    {operation : Operation} (h : strict.IsPayload status payload operation)
    (hknown : status ≠ .unknown) : payload = writePayload status operation := by
  cases h with
  | @pending calendarUrl block surplus address tail =>
    rcases isBlock_strict_iff.mp address with ⟨_, rfl⟩
    have htail : surplus = [] := tail
    rw [htail, List.append_nil]
    rfl
  | @anchored _ blockHeight digits surplus chain height tail =>
    rcases isShortest_iff.mp height with ⟨_, rfl⟩
    have htail : surplus = [] := tail
    rw [htail, List.append_nil]
    rcases chain with rfl | rfl <;> rfl
  | unknown => exact absurd rfl hknown

/-! ## Operations -/

theorem writeOperation_of_kind {operation : Operation} {kind : OperationKind}
    (h : operation.kind? = some kind) :
    writeOperation operation = (kind.tag :: ·) <$> writeBody kind operation := by
  rw [writeOperation, h]

theorem writeAttestation_of_tagOf {operation : Operation} {status : AttestationStatus}
    {tag : Bytes} (hstatus : operation.status = status.code) (htag : tagOf status = some tag) :
    writeAttestation operation =
      .ok (tag ++ writeBlock (writePayload status operation)) := by
  rw [writeAttestation, hstatus, AttestationStatus.ofCode?_code]
  simp only [htag]
  rfl

/-- The bytes of an attestation after its kind are written when calendars send
its status. -/
theorem writeAttestation_eq_ok_iff {operation : Operation} {body : Bytes} :
    writeAttestation operation = .ok body ↔
      ∃ status tag, operation.status = status.code ∧ tagOf status = some tag ∧
        body = tag ++ writeBlock (writePayload status operation) := by
  constructor
  · intro h
    unfold writeAttestation at h
    split at h
    · cases h
    · rename_i status hstatus
      split at h
      · cases h
      · rename_i tag htag
        cases h
        exact ⟨status, tag, (AttestationStatus.code_of_ofCode? hstatus).symm, htag, rfl⟩
  · rintro ⟨status, tag, hstatus, htag, rfl⟩
    exact writeAttestation_of_tagOf hstatus htag

/-- The statuses that calendars send are those with a tag of their own. -/
theorem hasSentStatus_iff {operation : Operation} :
    operation.hasSentStatus = true ↔
      ∃ status tag, operation.status = status.code ∧ tagOf status = some tag := by
  simp only [Operation.hasSentStatus, Bool.or_eq_true, decide_eq_true_eq]
  constructor
  · rintro ((hstatus | hstatus) | hstatus)
    · exact ⟨.pending, _, hstatus, rfl⟩
    · exact ⟨.bitcoin, _, hstatus, rfl⟩
    · exact ⟨.litecoin, _, hstatus, rfl⟩
  · rintro ⟨status, tag, hstatus, htag⟩
    cases status with
    | pending => exact .inl (.inl hstatus)
    | bitcoin => exact .inl (.inr hstatus)
    | litecoin => exact .inr hstatus
    | invalid => cases htag
    | unknown => cases htag

/-- An attestation that cannot be written is refused for its status. -/
theorem writeAttestation_of_not_sent {operation : Operation}
    (h : operation.hasSentStatus = false) :
    writeAttestation operation = .error (.unserializableAttestation operation.status) := by
  unfold writeAttestation
  split
  · rfl
  · rename_i status hstatus
    split
    · rfl
    · rename_i tag htag
      have hsent := hasSentStatus_iff.mpr
        ⟨status, tag, (AttestationStatus.code_of_ofCode? hstatus).symm, htag⟩
      rw [h] at hsent
      cases hsent

/-- An operation that can be written is. -/
theorem writeOperation_isOk {operation : Operation} (h : operation.isWritable = true) :
    ∃ piece, writeOperation operation = .ok piece := by
  simp only [Operation.isWritable, Bool.and_eq_true] at h
  rcases h with ⟨hknown, hsent⟩
  rcases Option.isSome_iff_exists.mp hknown with ⟨kind, hkind⟩
  rw [writeOperation_of_kind hkind]
  cases kind with
  | attestation =>
    have hattests : operation.isAttestation = true := by simp [Operation.isAttestation, hkind]
    have hstatus : operation.hasSentStatus = true := by simpa [hattests] using hsent
    rcases hasSentStatus_iff.mp hstatus with ⟨status, tag, hcode, htag⟩
    exact ⟨_, by rw [writeBody, writeAttestation_of_tagOf hcode htag, map_ok]⟩
  | sha1 | ripemd160 | sha256 | append | prepend => exact ⟨_, rfl⟩

/-- An operation that cannot be written is refused for its kind or its status. -/
theorem writeOperation_of_not_isWritable {operation : Operation}
    (h : operation.isWritable = false) :
    writeOperation operation = .error operation.refusal := by
  cases hkind : operation.kind? with
  | none =>
    rw [writeOperation, hkind, Operation.refusal, hkind]
    rfl
  | some kind =>
    have hattests : operation.isAttestation = true := by
      by_cases hattests : operation.isAttestation = true
      · exact hattests
      · simp [Operation.isWritable, hkind, hattests] at h
    have hstatus : operation.hasSentStatus = false := by
      simpa [Operation.isWritable, hkind, hattests] using h
    have hattestation : kind = .attestation := by
      simpa [Operation.isAttestation, hkind] using hattests
    rw [writeOperation_of_kind hkind, hattestation, writeBody,
      writeAttestation_of_not_sent hstatus, map_error, Operation.refusal, hkind]
    rfl

/-! ### Written operations and the strict spelling -/

/-- A payload belongs to an attestation with the status that its tag announces. -/
theorem kind?_status_of_isPayload {spelling : Spelling} {status : AttestationStatus}
    {payload : Bytes} {operation : Operation} (h : spelling.IsPayload status payload operation) :
    operation.kind? = some .attestation ∧ operation.status = status.code := by
  cases h with
  | pending => exact ⟨OperationKind.ofCode?_code .attestation, rfl⟩
  | anchored => exact ⟨OperationKind.ofCode?_code .attestation, rfl⟩
  | unknown => exact ⟨OperationKind.ofCode?_code .attestation, rfl⟩

theorem tagOf_of_isTag {tag : Bytes} {status : AttestationStatus} (h : IsTag tag status)
    (hknown : status ≠ .unknown) : tagOf status = some tag := by
  cases h with
  | bitcoin => rfl
  | litecoin => rfl
  | pending => rfl
  | unknown => exact absurd rfl hknown

/-- The strict spelling of an operation is written. -/
theorem write_of_isOperation {piece : Bytes} {operation : Operation}
    (h : strict.IsOperation piece operation) (hwritable : operation.isWritable = true) :
    writeOperation operation = .ok piece := by
  cases h with
  | sha1 => rfl
  | ripemd160 => rfl
  | sha256 => rfl
  | append framed =>
    rcases isBlock_strict_iff.mp framed with ⟨_, rfl⟩
    rfl
  | prepend framed =>
    rcases isBlock_strict_iff.mp framed with ⟨_, rfl⟩
    rfl
  | @attestation tag block payload status _ tagged framed content =>
    rcases kind?_status_of_isPayload content with ⟨hkind, hstatus⟩
    have hknown : status ≠ .unknown := by
      rintro rfl
      cases content with
      | anchored chain => rcases chain with chain | chain <;> cases chain
      | unknown => cases hwritable
    rcases isBlock_strict_iff.mp framed with ⟨_, rfl⟩
    rw [writeOperation_of_kind hkind, writeBody,
      writeAttestation_of_tagOf hstatus (tagOf_of_isTag tagged hknown),
      ← eq_writePayload_of_isPayload content hknown]
    rfl

/-- What is written for an attestation is the strict spelling of what its bytes carry. -/
theorem isOperation_of_writeAttestation {operation : Operation} {body : Bytes}
    (hkind : operation.kind? = some .attestation) (h : writeAttestation operation = .ok body)
    (hsize : body.length < limit) : strict.IsOperation (0x00 :: body) operation.carried := by
  rcases writeAttestation_eq_ok_iff.mp h with ⟨status, tag, hstatus, htag, rfl⟩
  have hframe : (writePayload status operation).length < limit := by
    have := length_le_length_writeBlock (writePayload status operation)
    simp only [List.length_append] at hsize
    omega
  have hcontent : strict.IsPayload status (writePayload status operation) operation.carried := by
    rw [Operation.carried_of_status hkind hstatus]
    cases status with
    | invalid => cases htag
    | unknown => cases htag
    | pending =>
      have := length_le_length_writeBlock (Utf8.encode operation.calendarUrl)
      exact isPayload_writePayload_pending (Nat.lt_of_le_of_lt this hframe)
    | bitcoin => exact isPayload_writePayload_anchored operation (.inl rfl)
    | litecoin => exact isPayload_writePayload_anchored operation (.inr rfl)
  exact .attestation (isTag_of_tagOf htag) (isBlock_strict_iff.mpr ⟨hframe, rfl⟩) hcontent

/-- What is written for an operation is the strict spelling of what its bytes carry. -/
theorem isOperation_of_write {operation : Operation} {piece : Bytes}
    (h : writeOperation operation = .ok piece) (hsize : piece.length < limit) :
    strict.IsOperation piece operation.carried := by
  cases hkind : operation.kind? with
  | none =>
    rw [writeOperation, hkind] at h
    cases h
  | some kind =>
    rw [writeOperation_of_kind hkind] at h
    rcases map_eq_ok.mp h with ⟨body, hbody, rfl⟩
    have hbodySize : body.length < limit := by
      simp only [List.length_cons] at hsize
      omega
    by_cases hattests : kind = .attestation
    · subst hattests
      exact isOperation_of_writeAttestation hkind hbody hbodySize
    · rw [Operation.carried_of_kind hkind hattests]
      have hblock : ∀ {value : Bytes}, body = writeBlock value → strict.IsBlock body value := by
        rintro value rfl
        have := length_le_length_writeBlock value
        exact isBlock_strict_iff.mpr ⟨Nat.lt_of_le_of_lt this hbodySize, rfl⟩
      cases kind with
      | attestation => exact absurd rfl hattests
      | sha1 =>
        cases hbody
        exact .sha1
      | ripemd160 =>
        cases hbody
        exact .ripemd160
      | sha256 =>
        cases hbody
        exact .sha256
      | append =>
        cases hbody
        exact .append (hblock rfl)
      | prepend =>
        cases hbody
        exact .prepend (hblock rfl)

/-! ## Chains -/

theorem serialize_nil : serialize [] = .ok [] := rfl

/-- A chain is written one operation after the other. -/
theorem serialize_cons (operation : Operation) (operations : List Operation) :
    serialize (operation :: operations) =
      (writeOperation operation >>= fun piece => (piece ++ ·) <$> serialize operations) := by
  simp only [serialize, List.mapM_cons]
  cases writeOperation operation with
  | error e => rfl
  | ok piece =>
    simp only [ok_bind]
    cases operations.mapM writeOperation with
    | error e => rfl
    | ok pieces => rfl

/-- The strict spelling of a chain is written. -/
theorem serialize_of_isChain {bytes : Bytes} {operations : List Operation}
    (h : strict.IsChain bytes operations)
    (hwritable : ∀ operation ∈ operations, operation.isWritable = true) :
    serialize operations = .ok bytes := by
  rcases h with ⟨pieces, hpieces, rfl⟩
  induction hpieces with
  | nil => rfl
  | @cons piece operation pieces operations hpiece _ ih =>
    rcases List.forall_mem_cons.mp hwritable with ⟨hfirst, hrest⟩
    rw [serialize_cons, write_of_isOperation hpiece hfirst, ok_bind, ih hrest]
    rfl

/-- What is written for a chain is the strict spelling of what its bytes carry. -/
theorem isChain_of_serialize {bytes : Bytes} {operations : List Operation}
    (h : serialize operations = .ok bytes) (hsize : bytes.length < limit) :
    strict.IsChain bytes (operations.map Operation.carried) := by
  induction operations generalizing bytes with
  | nil =>
    cases h
    exact isChain_nil strict
  | cons operation operations ih =>
    rw [serialize_cons] at h
    rcases bind_eq_ok.mp h with ⟨piece, hpiece, hothers⟩
    rcases map_eq_ok.mp hothers with ⟨rest, hrest, rfl⟩
    rw [List.length_append] at hsize
    exact .cons (isOperation_of_write hpiece (by omega)) (ih hrest (by omega))

/-- A chain that was written reads back as what its bytes carry. -/
theorem parse_of_serialize {bytes : Bytes} {operations : List Operation}
    (h : serialize operations = .ok bytes) (hsize : bytes.length < limit) :
    parse bytes = .ok (operations.map Operation.carried) :=
  parse_of_isChain (isChain_of_serialize h hsize).lenient

/-- A chain is refused for the first operation that cannot be written. -/
theorem serialize_eq_error_iff {operations : List Operation} {e : Error} :
    serialize operations = .error e ↔
      ∃ offending, operations.find? (fun operation => !operation.isWritable) = some offending ∧
        offending.refusal = e := by
  induction operations with
  | nil => simp [serialize_nil]
  | cons operation operations ih =>
    rw [serialize_cons, List.find?_cons]
    cases hwritable : operation.isWritable with
    | false => simp [writeOperation_of_not_isWritable hwritable]
    | true =>
      rcases writeOperation_isOk hwritable with ⟨piece, hpiece⟩
      rw [hpiece, ok_bind, Bool.not_true, ← ih]
      cases serialize operations <;> simp

/-- A chain can be written when each of its operations can. -/
theorem serialize_isOk_iff {operations : List Operation} :
    (∃ bytes, serialize operations = .ok bytes) ↔
      ∀ operation ∈ operations, operation.isWritable = true := by
  constructor
  · rintro ⟨bytes, hbytes⟩ operation hmem
    by_contra hunwritable
    have hfound : (operations.find? fun operation => !operation.isWritable).isSome = true := by
      rw [List.find?_isSome]
      exact ⟨operation, hmem, by simpa using hunwritable⟩
    rcases Option.isSome_iff_exists.mp hfound with ⟨offending, hoffending⟩
    have herror := serialize_eq_error_iff.mpr ⟨offending, hoffending, rfl⟩
    rw [hbytes] at herror
    cases herror
  · intro hwritable
    cases hserialized : serialize operations with
    | ok bytes => exact ⟨bytes, rfl⟩
    | error e =>
      rcases serialize_eq_error_iff.mp hserialized with ⟨offending, hfound, _⟩
      have hmem := List.mem_of_find?_eq_some hfound
      have hunwritable := List.find?_some hfound
      simp [hwritable offending hmem] at hunwritable

/-- A chain can be written when each of its operations can, and else it is
refused for the first that cannot.  What is written reads back as what the bytes
carry, operation by operation, and a chain that holds no more than that comes
back as it was.  The bytes are fewer than the limit of numerals, as they are in
any memory with addresses of 64 bits; no length can be read beyond it. -/
theorem serialize_carries (operations : List Operation) :
    ((∃ bytes, serialize operations = .ok bytes) ↔
        ∀ operation ∈ operations, operation.isWritable = true) ∧
      (∀ e, serialize operations = .error e ↔
        ∃ offending,
          operations.find? (fun operation => !operation.isWritable) = some offending ∧
            offending.refusal = e) ∧
      ∀ bytes, serialize operations = .ok bytes → bytes.length < limit →
        parse bytes = .ok (operations.map Operation.carried) ∧
          ((∀ operation ∈ operations, operation.carried = operation) →
            parse bytes = .ok operations) := by
  refine ⟨serialize_isOk_iff, fun e => serialize_eq_error_iff, ?_⟩
  intro bytes hserialized hsize
  have hparsed := parse_of_serialize hserialized hsize
  refine ⟨hparsed, ?_⟩
  intro hbare
  rw [hparsed, List.map_congr_left hbare, List.map_id']

/-- Operations with more in them than their bytes carry. -/
def ladenChain : List Operation :=
  [{ kind := OperationKind.sha256.code, value := [0x01], status := 3 },
    { kind := OperationKind.append.code, value := [0x2a], calendarUrl := "a" },
    { kind := OperationKind.attestation.code, value := [0x01],
      status := AttestationStatus.pending.code, calendarUrl := "a", blockHeight := 5 },
    { kind := OperationKind.attestation.code, status := AttestationStatus.bitcoin.code,
      calendarUrl := "b", blockHeight := 300 }]

/-- What is written for them. -/
def ladenBytes : Bytes :=
  [0x08, 0xf0, 0x01, 0x2a,
    0x00, 0x83, 0xdf, 0xe3, 0x0d, 0x2e, 0xf9, 0x0c, 0x8e, 0x02, 0x01, 0x61,
    0x00, 0x05, 0x88, 0x96, 0x0d, 0x73, 0xd7, 0x19, 0x01, 0x02, 0xac, 0x02]

/-- The needless fields of the laden chain are not written. -/
theorem serialize_carries_ladenChain :
    serialize ladenChain = .ok ladenBytes ∧ ladenBytes.length < limit ∧
      parse ladenBytes = .ok
        [.sha256, .append [0x2a], .pending "a", .anchored .bitcoin 300] := by
  have hserialized : serialize ladenChain = .ok ladenBytes := by decide +kernel
  have hsize : ladenBytes.length < limit := by decide
  have hcarried : ladenChain.map Operation.carried =
      [.sha256, .append [0x2a], .pending "a", .anchored .bitcoin 300] := by
    decide
  have hparsed := ((serialize_carries ladenChain).2.2 ladenBytes hserialized hsize).1
  rw [hcarried] at hparsed
  exact ⟨hserialized, hsize, hparsed⟩

end Chain

end CalendarStamp
