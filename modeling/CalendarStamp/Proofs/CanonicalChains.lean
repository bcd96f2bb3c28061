import CalendarStamp.Proofs.WrittenChains

/-!
# The canonical form of a chain

A chain that was read and is written again is its own strict spelling.  However
it was spelled at first, with longer numerals or with bytes that mean nothing,
the strict spelling is no longer, and it is as long only if nothing changes.
The payload of an attestation lies within a block, so that a shorter payload
may shorten the length in front of it as well.

Main results:

- Theorem `exists_strict_block`: a block with a shorter content is shorter.
- Theorem `exists_strict_chain`: every chain has a strict spelling, which is the
  chain itself or shorter.
- Theorem `isWritable_iff_of_isOperation`: what was read can be written unless it
  is an attestation of unknown status.
- Theorem `serialize_of_parse`: what becomes of a chain that is read and written.
-/

namespace CalendarStamp.Chain

open Outcome Varint Spelling Bytes

/-! ## Strict spellings are short -/

/-- A block with a content that is replaced by a shorter one, or kept, has a
strict spelling that is shorter, or the block itself. -/
theorem exists_strict_block {block content short : Bytes} (h : lenient.IsBlock block content)
    (hshort : short.Shortens content) :
    ∃ shortBlock, strict.IsBlock shortBlock short ∧ shortBlock.Shortens block := by
  rcases h with ⟨digits, hnumeral, rfl⟩
  have hlength := hshort.length_le
  have hlimit : short.length < limit := Nat.lt_of_le_of_lt hlength hnumeral.lt_limit
  refine ⟨writeBlock short, isBlock_strict_iff.mpr ⟨hlimit, rfl⟩, ?_⟩
  have hdigits : (write content.length).Shortens digits := write_shortens hnumeral.groups
  rcases hshort with rfl | hless
  · exact hdigits.append (.refl short)
  · -- The content is shorter, and its length takes no more room than before.
    right
    have hfewer := length_write_mono hlength
    have hwritten := hdigits.length_le
    simp only [writeBlock, List.length_append]
    omega

/-- A payload has a strict spelling that is shorter, or the payload itself. -/
theorem exists_strict_payload {status : AttestationStatus} {payload : Bytes}
    {operation : Operation} (h : lenient.IsPayload status payload operation) :
    ∃ short, strict.IsPayload status short operation ∧ short.Shortens payload := by
  cases h with
  | @pending calendarUrl block surplus address tail =>
    rcases exists_strict_block address (.refl _) with ⟨short, hstrict, hshort⟩
    exact ⟨short ++ [], .pending hstrict rfl, hshort.append_nil surplus⟩
  | @anchored _ blockHeight digits surplus chain height tail =>
    have hshortest := isShortest_iff.mpr ⟨height.lt_limit, rfl⟩
    exact ⟨write blockHeight.toNat ++ [], .anchored chain hshortest rfl,
      (write_shortens height.groups).append_nil surplus⟩
  | unknown => exact ⟨payload, .unknown payload, .refl payload⟩

/-- An operation has a strict spelling that is shorter, or the bytes themselves. -/
theorem exists_strict_operation {piece : Bytes} {operation : Operation}
    (h : lenient.IsOperation piece operation) :
    ∃ short, strict.IsOperation short operation ∧ short.Shortens piece := by
  cases h with
  | sha1 => exact ⟨_, .sha1, .refl _⟩
  | ripemd160 => exact ⟨_, .ripemd160, .refl _⟩
  | sha256 => exact ⟨_, .sha256, .refl _⟩
  | append framed =>
    rcases exists_strict_block framed (.refl _) with ⟨short, hstrict, hshort⟩
    exact ⟨_, .append hstrict, hshort.cons _⟩
  | prepend framed =>
    rcases exists_strict_block framed (.refl _) with ⟨short, hstrict, hshort⟩
    exact ⟨_, .prepend hstrict, hshort.cons _⟩
  | @attestation tag block payload status _ tagged framed content =>
    rcases exists_strict_payload content with ⟨shortPayload, hpayload, hshortPayload⟩
    rcases exists_strict_block framed hshortPayload with ⟨short, hstrict, hshort⟩
    exact ⟨_, .attestation tagged hstrict hpayload, ((Shortens.refl tag).append hshort).cons _⟩

/-- A chain has a strict spelling that is shorter, or the chain itself. -/
theorem exists_strict_chain {bytes : Bytes} {operations : List Operation}
    (h : lenient.IsChain bytes operations) :
    ∃ short, strict.IsChain short operations ∧ short.Shortens bytes := by
  rcases h with ⟨pieces, hpieces, rfl⟩
  induction hpieces with
  | nil => exact ⟨[], isChain_nil strict, .refl []⟩
  | @cons piece operation pieces operations hpiece _ ih =>
    rcases exists_strict_operation hpiece with ⟨first, hfirst, hfirstShort⟩
    rcases ih with ⟨rest, hrest, hrestShort⟩
    exact ⟨first ++ rest, .cons hfirst hrest, hfirstShort.append hrestShort⟩

/-! ## What was read can be written -/

/-- What the bytes of an operation spell can be written, unless it attests with
an unknown status. -/
theorem isWritable_iff_of_isOperation {spelling : Spelling} {piece : Bytes}
    {operation : Operation} (h : spelling.IsOperation piece operation) :
    operation.isWritable = true ↔ operation.attestsAs .unknown = false := by
  cases h with
  | sha1 => decide
  | ripemd160 => decide
  | sha256 => decide
  | append framed => exact iff_of_true rfl rfl
  | prepend framed => exact iff_of_true rfl rfl
  | attestation tagged framed content =>
    cases content with
    | pending address tail => exact iff_of_true rfl rfl
    | anchored chain height tail => rcases chain with rfl | rfl <;> exact iff_of_true rfl rfl
    | unknown => decide

/-- What was read can be written, unless it attests with an unknown status. -/
theorem isWritable_iff_of_isChain {spelling : Spelling} {bytes : Bytes}
    {operations : List Operation} (h : spelling.IsChain bytes operations) :
    (∀ operation ∈ operations, operation.isWritable = true) ↔
      ∀ operation ∈ operations, operation.attestsAs .unknown = false := by
  rcases h with ⟨pieces, hpieces, rfl⟩
  induction hpieces with
  | nil => simp
  | cons hpiece _ ih =>
    rw [List.forall_mem_cons, List.forall_mem_cons, isWritable_iff_of_isOperation hpiece, ih]

/-- A chain that was read can be written unless one of its operations attests
with an unknown status.  What is written reads back as the same operations; it
is no longer than the chain was, as long only if it is the same, and the same
exactly when the chain was spelled strictly. -/
theorem serialize_of_parse {bytes : Bytes} {operations : List Operation}
    (parsed : parse bytes = .ok operations) :
    ((∃ short, serialize operations = .ok short) ↔
        ∀ operation ∈ operations, operation.attestsAs .unknown = false) ∧
      ∀ short, serialize operations = .ok short →
        parse short = .ok operations ∧ short.length ≤ bytes.length ∧
          (short.length = bytes.length → short = bytes) ∧
          (short = bytes ↔ strict.IsChain bytes operations) := by
  have hchain := isChain_of_parse parsed
  refine ⟨serialize_isOk_iff.trans (isWritable_iff_of_isChain hchain), ?_⟩
  intro short hserialized
  have hwritable := serialize_isOk_iff.mp ⟨short, hserialized⟩
  rcases exists_strict_chain hchain with ⟨canonical, hstrict, hshort⟩
  have hsame : short = canonical := by
    have hcanonical := serialize_of_isChain hstrict hwritable
    rw [hserialized] at hcanonical
    exact Except.ok.inj hcanonical
  subst hsame
  refine ⟨parse_of_isChain hstrict.lenient, hshort.length_le, hshort.eq_of_length_eq, ?_⟩
  constructor
  · rintro rfl
    exact hstrict
  · intro hbytes
    have hagain := serialize_of_isChain hbytes hwritable
    rw [hserialized] at hagain
    exact Except.ok.inj hagain

/-- A value and a promise. -/
def looseChain : List Operation :=
  [.append [0x2a], .pending "a"]

/-- A spelling of them with a zero group too many in the length of the value, and
with a byte too many in the payload of the promise. -/
def looseBytes : Bytes :=
  [0xf0, 0x81, 0x00, 0x2a,
    0x00, 0x83, 0xdf, 0xe3, 0x0d, 0x2e, 0xf9, 0x0c, 0x8e, 0x03, 0x01, 0x61, 0xff]

/-- Their strict spelling. -/
def tightBytes : Bytes :=
  [0xf0, 0x01, 0x2a,
    0x00, 0x83, 0xdf, 0xe3, 0x0d, 0x2e, 0xf9, 0x0c, 0x8e, 0x02, 0x01, 0x61]

/-- The loose spelling is read, and the strict one is written for it. -/
theorem serialize_of_parse_looseBytes :
    parse looseBytes = .ok looseChain ∧ serialize looseChain = .ok tightBytes ∧
      parse tightBytes = .ok looseChain ∧ tightBytes.length ≤ looseBytes.length ∧
        ¬strict.IsChain looseBytes looseChain := by
  have hparsed : parse looseBytes = .ok looseChain := by decide +kernel
  have hserialized : serialize looseChain = .ok tightBytes := by decide +kernel
  have htight := (serialize_of_parse hparsed).2 tightBytes hserialized
  rcases htight with ⟨hagain, hlength, _, hstrict⟩
  refine ⟨hparsed, hserialized, hagain, hlength, ?_⟩
  rw [← hstrict]
  decide

end CalendarStamp.Chain
