import CalendarStamp.Proofs.WrittenFields
import CalendarStamp.Record.Encoding

/-!
# Records that were stored

A record is read by laying its fields over a starting value, one after the
other.  A field that is zero or empty is not stored, and reading leaves it as it
was at the start.  So a stored record reads back over an empty one, but for a
negative zero, which counts as zero when it is stored and reads back as a
positive one.

Main results:

- Theorem `Binary64.same_normalized_iff`: dropping the sign of a zero gives an
  equal number, unless it is none.
- Theorems `Identity.foldlM_merge_fields`, `Location.foldlM_merge_fields` and
  `Record.foldlM_merge_fields`: reading the fields of a record lays it over what
  was there before.
- Theorem `Identity.encode_injective`: different identities are stored differently.
- Theorem `Record.decode?_encode`: a stored record reads back.
-/

namespace CalendarStamp

open Wire

/-! ## Zeros without a sign -/

/-- The bits of a zero are none, or the sign alone. -/
theorem BinaryFormat.isZero_iff (format : BinaryFormat) {bits : Nat}
    (h : bits < 2 * 1 <<< (format.exponentWidth + format.fractionWidth)) :
    format.isZero bits = true ↔
      bits = 0 ∨ bits = 1 <<< (format.exponentWidth + format.fractionWidth) := by
  simp only [isZero, parts, Bool.and_eq_true, decide_eq_true_eq, Nat.one_shiftLeft,
    Nat.shiftRight_eq_div_pow, Nat.pow_add] at h ⊢
  have hexponent := Nat.two_pow_pos format.exponentWidth
  have hfraction := Nat.two_pow_pos format.fractionWidth
  constructor
  · rintro ⟨hzero, hrest⟩
    rcases Nat.dvd_of_mod_eq_zero hrest with ⟨high, rfl⟩
    rw [Nat.mul_div_cancel_left _ hfraction] at hzero
    rcases Nat.dvd_of_mod_eq_zero hzero with ⟨sign, rfl⟩
    rw [← Nat.mul_assoc, Nat.mul_comm (2 ^ format.fractionWidth)] at h ⊢
    rw [Nat.mul_comm 2] at h
    have hsign : sign = 0 ∨ sign = 1 := by
      have := Nat.lt_of_mul_lt_mul_left h
      omega
    rcases hsign with rfl | rfl
    · exact .inl (Nat.mul_zero _)
    · exact .inr (Nat.mul_one _)
  · intro hbits
    rcases hbits with rfl | rfl
    · simp
    · rw [Nat.mul_div_cancel _ hfraction, Nat.mod_self, Nat.mul_mod_left]
      exact ⟨rfl, rfl⟩

namespace Binary64

/-- Negative zero. -/
def negativeZero : Binary64 := ⟨0x8000000000000000⟩

/-- The number, where a zero is positive. -/
def normalized (x : Binary64) : Binary64 :=
  if x = negativeZero then zero else x

/-- A zero is one of the two zeros. -/
theorem isZero_iff (x : Binary64) : x.isZero = true ↔ x = zero ∨ x = negativeZero := by
  rw [isZero, BinaryFormat.isZero_iff _ x.bits.toNat_lt]
  rcases x with ⟨bits⟩
  simp only [zero, negativeZero, mk.injEq, ← UInt64.toNat_inj]
  rfl

/-- A zero is stored as nothing, which reads back as the positive one. -/
theorem normalized_eq (x : Binary64) : x.normalized = if x.isZero then zero else x := by
  by_cases hnegative : x = negativeZero
  · rw [hnegative]
    rfl
  · by_cases hzero : x = zero
    · rw [hzero]
      rfl
    · have hnot : ¬x.isZero = true := by
        rw [isZero_iff]
        exact not_or.mpr ⟨hzero, hnegative⟩
      rw [normalized, if_neg hnegative, if_neg hnot]

@[simp] theorem normalized_normalized (x : Binary64) : x.normalized.normalized = x.normalized := by
  by_cases hnegative : x = negativeZero
  · rw [hnegative]
    rfl
  · simp only [normalized, if_neg hnegative]

/-- Dropping the sign of a zero gives an equal number, unless it is none. -/
theorem same_normalized_iff (x : Binary64) : x.same x.normalized = true ↔ x.isNaN = false := by
  by_cases hnegative : x = negativeZero
  · rw [hnegative]
    decide
  · rw [normalized, if_neg hnegative, same_self_iff]

end Binary64

namespace Binary32

/-- Negative zero. -/
def negativeZero : Binary32 := ⟨0x80000000⟩

/-- The number, where a zero is positive. -/
def normalized (x : Binary32) : Binary32 :=
  if x = negativeZero then zero else x

/-- A zero is one of the two zeros. -/
theorem isZero_iff (x : Binary32) : x.isZero = true ↔ x = zero ∨ x = negativeZero := by
  rw [isZero, BinaryFormat.isZero_iff _ x.bits.toNat_lt]
  rcases x with ⟨bits⟩
  simp only [zero, negativeZero, mk.injEq, ← UInt32.toNat_inj]
  rfl

/-- A zero is stored as nothing, which reads back as the positive one. -/
theorem normalized_eq (x : Binary32) : x.normalized = if x.isZero then zero else x := by
  by_cases hnegative : x = negativeZero
  · rw [hnegative]
    rfl
  · by_cases hzero : x = zero
    · rw [hzero]
      rfl
    · have hnot : ¬x.isZero = true := by
        rw [isZero_iff]
        exact not_or.mpr ⟨hzero, hnegative⟩
      rw [normalized, if_neg hnegative, if_neg hnot]

@[simp] theorem normalized_normalized (x : Binary32) : x.normalized.normalized = x.normalized := by
  by_cases hnegative : x = negativeZero
  · rw [hnegative]
    rfl
  · simp only [normalized, if_neg hnegative]

/-- Dropping the sign of a zero gives an equal number, unless it is none. -/
theorem same_normalized_iff (x : Binary32) : x.same x.normalized = true ↔ x.isNaN = false := by
  by_cases hnegative : x = negativeZero
  · rw [hnegative]
    decide
  · rw [normalized, if_neg hnegative, same_self_iff]

end Binary32

/-! ## Fields that are laid over a value -/

namespace Wire

/-- The low 32 bits of a number of 32 bits are the number. -/
@[simp] theorem unsigned32_toNat (value : UInt32) : unsigned32 value.toNat = value :=
  UInt32.ofNat_toNat

section Merging

variable {α : Type} {merge : α → Field → Option α} {start next : α} {number : Nat}

/-- A field that may be left out changes a value where it is not. -/
theorem foldlM_optional {absent : Prop} [Decidable absent] {field : Field}
    (skipped : absent → next = start) (merged : ¬absent → merge start field = some next) :
    (if absent then [] else [field]).foldlM merge start = some next := by
  by_cases habsent : absent
  · rw [if_pos habsent, skipped habsent]
    rfl
  · rw [if_neg habsent]
    simp [merged habsent]

/-- An unsigned number changes a value by its field, and zero does not. -/
theorem foldlM_unsignedField {value : UInt32} (skipped : value = 0 → next = start)
    (merged : value ≠ 0 → merge start ⟨number, .varint value.toNat⟩ = some next) :
    (varintField number value.toNat).foldlM merge start = some next :=
  foldlM_optional (fun hzero => skipped (UInt32.toNat_inj.mp hzero))
    fun hvalue => merged fun hzero => hvalue (congrArg UInt32.toNat hzero)

/-- A signed number changes a value by its field, and zero does not. -/
theorem foldlM_signedField {value : Int32} (skipped : value = 0 → next = start)
    (merged : value ≠ 0 → merge start ⟨number, .varint (signedValue value)⟩ = some next) :
    (signedField number value).foldlM merge start = some next := by
  refine foldlM_optional (fun hzero => skipped ?_)
    fun hvalue => merged fun hzero => hvalue (congrArg signedValue hzero)
  rw [← signed32_signedValue value, hzero]
  rfl

/-- Bytes change a value by their field, and no bytes do not. -/
theorem foldlM_bytesField {content : Bytes} (skipped : content = [] → next = start)
    (merged : content ≠ [] → merge start ⟨number, .delimited content⟩ = some next) :
    (bytesField number content).foldlM merge start = some next :=
  foldlM_optional skipped merged

/-- A text changes a value by its field, and the empty text does not. -/
theorem foldlM_textField {text : String} (skipped : text = "" → next = start)
    (merged : text ≠ "" → merge start ⟨number, .delimited (Utf8.encode text)⟩ = some next) :
    (textField number text).foldlM merge start = some next :=
  foldlM_bytesField (fun hempty => skipped (Utf8.encode_injective hempty))
    fun hcontent => merged fun hempty => hcontent (congrArg Utf8.encode hempty)

/-- A double changes a value by its field, and a zero does not. -/
theorem foldlM_doubleField {value : Binary64} (skipped : value.isZero = true → next = start)
    (merged : value.isZero = false → merge start ⟨number, .fixed64 value.bits⟩ = some next) :
    (doubleField number value).foldlM merge start = some next :=
  foldlM_optional skipped fun hvalue => merged (Bool.eq_false_iff.mpr hvalue)

/-- A single changes a value by its field, and a zero does not. -/
theorem foldlM_singleField {value : Binary32} (skipped : value.isZero = true → next = start)
    (merged : value.isZero = false → merge start ⟨number, .fixed32 value.bits⟩ = some next) :
    (singleField number value).foldlM merge start = some next :=
  foldlM_optional skipped fun hvalue => merged (Bool.eq_false_iff.mpr hvalue)

/-- A message changes a value by its field where there is one. -/
theorem foldlM_optionalMessage {β : Type} (encode : β → Bytes) {item : Option β}
    (skipped : item = none → next = start)
    (merged : ∀ content, item = some content →
      merge start (messageField number (encode content)) = some next) :
    (item.toList.map fun content => messageField number (encode content)).foldlM merge start =
      some next := by
  cases item with
  | none =>
    rw [skipped rfl]
    rfl
  | some content => simp [merged content rfl]

/-- Messages that are kept in a list are collected in order. -/
theorem foldlM_messageFields {β : Type} (encode : β → Bytes) (collected : List β → α)
    {items : List β}
    (each : ∀ done, ∀ item ∈ items,
      merge (collected done) (messageField number (encode item)) =
        some (collected (done ++ [item])))
    (done : List β) :
    (items.map fun item => messageField number (encode item)).foldlM merge (collected done) =
      some (collected (done ++ items)) := by
  induction items generalizing done with
  | nil => simp
  | cons item items ih =>
    have hfirst := each done item List.mem_cons_self
    have hrest := ih (fun done item hmem => each done item (List.mem_cons_of_mem _ hmem))
      (done ++ [item])
    rw [List.map_cons, List.foldlM_cons, hfirst, Option.bind_eq_bind, Option.bind_some, hrest,
      List.append_assoc, List.singleton_append]

end Merging

end Wire

/-! ## Operations -/

namespace Operation

/-- The fields of an operation, read over nothing, give the operation. -/
theorem foldlM_merge_fields (operation : Operation) :
    operation.fields.foldlM merge {} = some operation := by
  rcases operation with ⟨kind, value, status, calendarUrl, blockHeight⟩
  have hkind : (signedField 1 kind).foldlM merge {} = some { kind } :=
    foldlM_signedField (fun h => by rw [h]) (fun _ => by simp [merge])
  have hvalue : (bytesField 2 value).foldlM merge { kind } = some { kind, value } :=
    foldlM_bytesField (fun h => by rw [h]) (fun _ => by simp [merge])
  have hstatus : (signedField 3 status).foldlM merge { kind, value } =
      some { kind, value, status } :=
    foldlM_signedField (fun h => by rw [h]) (fun _ => by simp [merge])
  have hcalendarUrl : (textField 4 calendarUrl).foldlM merge { kind, value, status } =
      some { kind, value, status, calendarUrl } :=
    foldlM_textField (fun h => by rw [h]) (fun _ => by simp [merge])
  have hblockHeight : (varintField 5 blockHeight.toNat).foldlM merge
      { kind, value, status, calendarUrl } =
        some { kind, value, status, calendarUrl, blockHeight } :=
    foldlM_unsignedField (fun h => by rw [h]) (fun _ => by simp [merge])
  simp [fields, List.foldlM_append, hkind, hvalue, hstatus, hcalendarUrl, hblockHeight]

theorem isPlain_fields (operation : Operation) : ∀ field ∈ operation.fields, field.IsPlain := by
  simp only [fields, List.forall_mem_append]
  exact ⟨⟨⟨⟨isPlain_signedField (by decide) _, isPlain_bytesField (by decide) _⟩,
    isPlain_signedField (by decide) _⟩, isPlain_textField (by decide) _⟩,
    isPlain_unsignedField (by decide) _⟩

/-- A stored operation reads back. -/
theorem decode?_encode (operation : Operation) (fits : operation.encode.length < Varint.limit)
    (nesting : Nat) : decode? nesting operation.encode = some operation := by
  rw [decode?, encode, decode_writeAll merge nesting {} operation.isPlain_fields fits,
    foldlM_merge_fields]

end Operation

/-! ## Attestations -/

namespace Attestation

/-- The fields of an attestation, read over nothing, give the attestation. -/
theorem foldlM_merge_fields (nesting : Nat) (attestation : Attestation)
    (fits : ∀ operation ∈ attestation.operations, operation.encode.length < Varint.limit) :
    attestation.fields.foldlM (merge nesting) {} = some attestation := by
  rcases attestation with ⟨calendarUrl, submitted, operations, status, blockHeight,
    blockMerkleRoot, timestampMerkleRoot, transactionId⟩
  have hcalendarUrl : (textField 1 calendarUrl).foldlM (merge nesting) {} =
      some { calendarUrl } :=
    foldlM_textField (fun h => by rw [h]) (fun _ => by simp [merge])
  have hsubmitted : (varintField 2 submitted.toNat).foldlM (merge nesting) { calendarUrl } =
      some { calendarUrl, submitted } :=
    foldlM_unsignedField (fun h => by rw [h]) (fun _ => by simp [merge])
  have hoperations : (operations.map fun operation => messageField 3 operation.encode).foldlM
      (merge nesting) { calendarUrl, submitted } =
        some { calendarUrl, submitted, operations } := by
    refine foldlM_messageFields Operation.encode
      (fun operations => ({ calendarUrl, submitted, operations } : Attestation)) ?_ []
    intro done operation hmem
    simp [merge, messageField, Operation.decode?_encode operation (fits operation hmem)]
  have hstatus : (signedField 4 status).foldlM (merge nesting)
      { calendarUrl, submitted, operations } =
        some { calendarUrl, submitted, operations, status } :=
    foldlM_signedField (fun h => by rw [h]) (fun _ => by simp [merge])
  have hblockHeight : (varintField 5 blockHeight.toNat).foldlM (merge nesting)
      { calendarUrl, submitted, operations, status } =
        some { calendarUrl, submitted, operations, status, blockHeight } :=
    foldlM_unsignedField (fun h => by rw [h]) (fun _ => by simp [merge])
  have hblockMerkleRoot : (bytesField 6 blockMerkleRoot).foldlM (merge nesting)
      { calendarUrl, submitted, operations, status, blockHeight } =
        some { calendarUrl, submitted, operations, status, blockHeight, blockMerkleRoot } :=
    foldlM_bytesField (fun h => by rw [h]) (fun _ => by simp [merge])
  have htimestampMerkleRoot : (bytesField 7 timestampMerkleRoot).foldlM (merge nesting)
      { calendarUrl, submitted, operations, status, blockHeight, blockMerkleRoot } =
        some { calendarUrl, submitted, operations, status, blockHeight, blockMerkleRoot,
               timestampMerkleRoot } :=
    foldlM_bytesField (fun h => by rw [h]) (fun _ => by simp [merge])
  have htransactionId : (bytesField 8 transactionId).foldlM (merge nesting)
      { calendarUrl, submitted, operations, status, blockHeight, blockMerkleRoot,
        timestampMerkleRoot } =
        some { calendarUrl, submitted, operations, status, blockHeight, blockMerkleRoot,
               timestampMerkleRoot, transactionId } :=
    foldlM_bytesField (fun h => by rw [h]) (fun _ => by simp [merge])
  simp [fields, List.foldlM_append, hcalendarUrl, hsubmitted, hoperations, hstatus, hblockHeight,
    hblockMerkleRoot, htimestampMerkleRoot, htransactionId]

theorem isPlain_fields (attestation : Attestation) :
    ∀ field ∈ attestation.fields, field.IsPlain := by
  simp only [fields, List.forall_mem_append, List.forall_mem_map]
  exact ⟨⟨⟨⟨⟨⟨⟨isPlain_textField (by decide) _, isPlain_unsignedField (by decide) _⟩,
    fun _ _ => isPlain_messageField (by decide) _⟩, isPlain_signedField (by decide) _⟩,
    isPlain_unsignedField (by decide) _⟩, isPlain_bytesField (by decide) _⟩,
    isPlain_bytesField (by decide) _⟩, isPlain_bytesField (by decide) _⟩

/-- A stored attestation reads back. -/
theorem decode?_encode (attestation : Attestation)
    (fits : attestation.encode.length < Varint.limit) (nesting : Nat) :
    decode? nesting attestation.encode = some attestation := by
  rw [decode?, encode, decode_writeAll (merge nesting) nesting {} attestation.isPlain_fields fits]
  refine foldlM_merge_fields nesting attestation fun operation hmem => ?_
  have hfield : messageField 3 operation.encode ∈ attestation.fields := by
    simp only [fields, List.mem_append]
    iterate 5 left
    exact .inr (List.mem_map_of_mem hmem)
  exact Nat.lt_of_le_of_lt (Field.length_content_le hfield) fits

end Attestation

/-! ## Identities -/

namespace Identity

/-- An identity and then another one, which counts where it says something. -/
def followedBy (earlier later : Identity) : Identity where
  countryCode := if later.countryCode = "" then earlier.countryCode else later.countryCode
  state := if later.state = "" then earlier.state else later.state
  city := if later.city = "" then earlier.city else later.city
  organization := if later.organization = "" then earlier.organization else later.organization
  department := if later.department = "" then earlier.department else later.department
  commonName := if later.commonName = "" then earlier.commonName else later.commonName
  email := if later.email = "" then earlier.email else later.email
  fullName := if later.fullName = "" then earlier.fullName else later.fullName

@[simp] theorem empty_followedBy (identity : Identity) : followedBy {} identity = identity := by
  cases identity
  simp +contextual [followedBy, eq_comm]

/-- The text with a number. -/
def text (identity : Identity) (number : Nat) : String :=
  match number with
  | 1 => identity.countryCode
  | 2 => identity.state
  | 3 => identity.city
  | 4 => identity.organization
  | 5 => identity.department
  | 6 => identity.commonName
  | 7 => identity.email
  | 8 => identity.fullName
  | _ => ""

theorem setText_text (identity : Identity) (number : Nat) :
    identity.setText number (identity.text number) = identity := by
  unfold setText text
  split <;> rfl

/-- A text is replaced by its field, unless it is empty. -/
theorem foldlM_merge_textField (identity : Identity) {number : Nat} (h : number ≤ 8)
    (text : String) :
    (textField number text).foldlM merge identity =
      some (identity.setText number (if text = "" then identity.text number else text)) := by
  refine foldlM_textField (fun hempty => ?_) fun htext => ?_
  · rw [if_pos hempty, setText_text]
  · simp [merge, h, htext]

/-- The fields of an identity are laid over the identity before. -/
theorem foldlM_merge_fields (earlier later : Identity) :
    later.fields.foldlM merge earlier = some (earlier.followedBy later) := by
  simp [fields, List.foldlM_append, foldlM_merge_textField, setText, text, followedBy]

/-- Different identities have different stored forms. -/
theorem encode_injective {identity identity' : Identity}
    (h : identity.encode = identity'.encode) : identity = identity' := by
  have hfields : identity.fields = identity'.fields := Field.writeAll_injective h
  have hread := foldlM_merge_fields {} identity
  rw [hfields, foldlM_merge_fields, empty_followedBy, empty_followedBy] at hread
  exact (Option.some.inj hread).symm

theorem isPlain_fields (identity : Identity) : ∀ field ∈ identity.fields, field.IsPlain := by
  simp only [fields, List.forall_mem_append]
  exact ⟨⟨⟨⟨⟨⟨⟨isPlain_textField (by decide) _, isPlain_textField (by decide) _⟩,
    isPlain_textField (by decide) _⟩, isPlain_textField (by decide) _⟩,
    isPlain_textField (by decide) _⟩, isPlain_textField (by decide) _⟩,
    isPlain_textField (by decide) _⟩, isPlain_textField (by decide) _⟩

/-- A stored identity is laid over the identity before. -/
theorem decodeOnto?_encode (earlier later : Identity)
    (fits : later.encode.length < Varint.limit) (nesting : Nat) :
    earlier.decodeOnto? nesting later.encode = some (earlier.followedBy later) := by
  rw [decodeOnto?, encode, decode_writeAll merge nesting earlier later.isPlain_fields fits,
    foldlM_merge_fields]

end Identity

/-! ## Locations -/

namespace Location

/-- A location and then another one, which counts where it is not zero. -/
def followedBy (earlier later : Location) : Location where
  latitude := if later.latitude.isZero then earlier.latitude else later.latitude
  longitude := if later.longitude.isZero then earlier.longitude else later.longitude
  altitude := if later.altitude.isZero then earlier.altitude else later.altitude
  accuracyMeters :=
    if later.accuracyMeters.isZero then earlier.accuracyMeters else later.accuracyMeters
  direction := if later.direction.isZero then earlier.direction else later.direction
  velocity := if later.velocity.isZero then earlier.velocity else later.velocity

/-- The location, where each zero is positive. -/
def normalized (location : Location) : Location where
  latitude := location.latitude.normalized
  longitude := location.longitude.normalized
  altitude := location.altitude.normalized
  accuracyMeters := location.accuracyMeters.normalized
  direction := location.direction.normalized
  velocity := location.velocity.normalized

/-- Whether some part of the location is no number. -/
def hasNaN (location : Location) : Bool :=
  location.latitude.isNaN || location.longitude.isNaN || location.altitude.isNaN ||
    location.accuracyMeters.isNaN || location.direction.isNaN || location.velocity.isNaN

theorem empty_followedBy (location : Location) : followedBy {} location = location.normalized := by
  simp only [followedBy, normalized, Binary64.normalized_eq, Binary32.normalized_eq]

@[simp] theorem normalized_normalized (location : Location) :
    location.normalized.normalized = location.normalized := by
  simp [normalized]

/-- Dropping the signs of zeros gives an equal location, unless a part of it is
no number. -/
theorem same_normalized_iff (location : Location) :
    location.same location.normalized = true ↔ location.hasNaN = false := by
  simp [same, normalized, hasNaN, Binary64.same_normalized_iff, Binary32.same_normalized_iff,
    and_assoc]

/-- The fields of a location are laid over the location before. -/
theorem foldlM_merge_fields (earlier later : Location) :
    later.fields.foldlM merge earlier = some (earlier.followedBy later) := by
  have hlatitude (location : Location) : (doubleField 1 later.latitude).foldlM merge location =
      some { location with
        latitude := if later.latitude.isZero then location.latitude else later.latitude } :=
    foldlM_doubleField (fun h => by simp [h]) (fun h => by simp [merge, h])
  have hlongitude (location : Location) : (doubleField 2 later.longitude).foldlM merge location =
      some { location with
        longitude := if later.longitude.isZero then location.longitude else later.longitude } :=
    foldlM_doubleField (fun h => by simp [h]) (fun h => by simp [merge, h])
  have haltitude (location : Location) : (doubleField 3 later.altitude).foldlM merge location =
      some { location with
        altitude := if later.altitude.isZero then location.altitude else later.altitude } :=
    foldlM_doubleField (fun h => by simp [h]) (fun h => by simp [merge, h])
  have haccuracy (location : Location) :
      (singleField 4 later.accuracyMeters).foldlM merge location =
        some { location with
          accuracyMeters :=
            if later.accuracyMeters.isZero then location.accuracyMeters
            else later.accuracyMeters } :=
    foldlM_singleField (fun h => by simp [h]) (fun h => by simp [merge, h])
  have hdirection (location : Location) : (singleField 5 later.direction).foldlM merge location =
      some { location with
        direction := if later.direction.isZero then location.direction else later.direction } :=
    foldlM_singleField (fun h => by simp [h]) (fun h => by simp [merge, h])
  have hvelocity (location : Location) : (singleField 6 later.velocity).foldlM merge location =
      some { location with
        velocity := if later.velocity.isZero then location.velocity else later.velocity } :=
    foldlM_singleField (fun h => by simp [h]) (fun h => by simp [merge, h])
  simp [fields, List.foldlM_append, hlatitude, hlongitude, haltitude, haccuracy, hdirection,
    hvelocity, followedBy]

theorem isPlain_fields (location : Location) : ∀ field ∈ location.fields, field.IsPlain := by
  simp only [fields, List.forall_mem_append]
  exact ⟨⟨⟨⟨⟨isPlain_doubleField (by decide) _, isPlain_doubleField (by decide) _⟩,
    isPlain_doubleField (by decide) _⟩, isPlain_singleField (by decide) _⟩,
    isPlain_singleField (by decide) _⟩, isPlain_singleField (by decide) _⟩

/-- A stored location is laid over the location before. -/
theorem decodeOnto?_encode (earlier later : Location)
    (fits : later.encode.length < Varint.limit) (nesting : Nat) :
    earlier.decodeOnto? nesting later.encode = some (earlier.followedBy later) := by
  rw [decodeOnto?, encode, decode_writeAll merge nesting earlier later.isPlain_fields fits,
    foldlM_merge_fields]

end Location

/-! ## Timestamps -/

namespace Record

/-- A record and then another one, which counts where it says something; its
attestations come after those before. -/
def followedBy (earlier later : Record) : Record where
  hash := if later.hash = [] then earlier.hash else later.hash
  nonce := if later.nonce = [] then earlier.nonce else later.nonce
  created := if later.created = 0 then earlier.created else later.created
  source := if later.source = "" then earlier.source else later.source
  identity :=
    match later.identity with
    | none => earlier.identity
    | some identity => some ((earlier.identity.getD {}).followedBy identity)
  location :=
    match later.location with
    | none => earlier.location
    | some location => some ((earlier.location.getD {}).followedBy location)
  attestations := earlier.attestations ++ later.attestations

/-- The record, where each zero in its location is positive. -/
def normalized (record : Record) : Record :=
  { record with location := record.location.map Location.normalized }

theorem empty_followedBy (record : Record) : followedBy {} record = record.normalized := by
  rcases record with ⟨hash, nonce, created, source, identity, location, attestations⟩
  cases identity <;> cases location <;>
    simp +contextual [followedBy, normalized, eq_comm, Location.empty_followedBy]

theorem isPlain_fields (record : Record) : ∀ field ∈ record.fields, field.IsPlain := by
  simp only [fields, List.forall_mem_append, List.forall_mem_map]
  exact ⟨⟨⟨⟨⟨⟨isPlain_bytesField (by decide) _, isPlain_bytesField (by decide) _⟩,
    isPlain_unsignedField (by decide) _⟩, isPlain_textField (by decide) _⟩,
    fun _ _ => isPlain_messageField (by decide) _⟩,
    fun _ _ => isPlain_messageField (by decide) _⟩,
    fun _ _ => isPlain_messageField (by decide) _⟩

/-- The fields of a record are laid over the record before. -/
theorem foldlM_merge_fields (nesting : Nat) (earlier later : Record)
    (fits : later.encode.length < Varint.limit) :
    later.fields.foldlM (merge nesting) earlier = some (earlier.followedBy later) := by
  have hcontent (number : Nat) (content : Bytes)
      (hmem : messageField number content ∈ later.fields) : content.length < Varint.limit :=
    Nat.lt_of_le_of_lt (Field.length_content_le hmem) fits
  -- Each step is stated for any record, since the steps before it have set other parts.
  have hhash (record : Record) : (bytesField 1 later.hash).foldlM (merge nesting) record =
      some { record with hash := if later.hash = [] then record.hash else later.hash } :=
    foldlM_bytesField (fun h => by simp [h]) (fun h => by simp [merge, h])
  have hnonce (record : Record) : (bytesField 2 later.nonce).foldlM (merge nesting) record =
      some { record with nonce := if later.nonce = [] then record.nonce else later.nonce } :=
    foldlM_bytesField (fun h => by simp [h]) (fun h => by simp [merge, h])
  have hcreated (record : Record) :
      (varintField 3 later.created.toNat).foldlM (merge nesting) record =
        some { record with
          created := if later.created = 0 then record.created else later.created } :=
    foldlM_unsignedField (fun h => by simp [h]) (fun h => by simp [merge, h])
  have hsource (record : Record) : (textField 4 later.source).foldlM (merge nesting) record =
      some { record with source := if later.source = "" then record.source else later.source } :=
    foldlM_textField (fun h => by simp [h]) (fun h => by simp [merge, h])
  have hidentity (record : Record) :
      (later.identity.toList.map fun identity => messageField 5 identity.encode).foldlM
          (merge nesting) record =
        some { record with
          identity :=
            match later.identity with
            | none => record.identity
            | some identity => some ((record.identity.getD {}).followedBy identity) } := by
    refine foldlM_optionalMessage Identity.encode (fun h => by simp [h]) fun identity h => ?_
    have hfits := hcontent 5 identity.encode (by simp [fields, h])
    simp [merge, messageField, h, Identity.decodeOnto?_encode _ identity hfits]
  have hlocation (record : Record) :
      (later.location.toList.map fun location => messageField 6 location.encode).foldlM
          (merge nesting) record =
        some { record with
          location :=
            match later.location with
            | none => record.location
            | some location => some ((record.location.getD {}).followedBy location) } := by
    refine foldlM_optionalMessage Location.encode (fun h => by simp [h]) fun location h => ?_
    have hfits := hcontent 6 location.encode (by simp [fields, h])
    simp [merge, messageField, h, Location.decodeOnto?_encode _ location hfits]
  have hattestations (record : Record) :
      (later.attestations.map fun attestation => messageField 7 attestation.encode).foldlM
          (merge nesting) record =
        some { record with attestations := record.attestations ++ later.attestations } := by
    refine foldlM_messageFields Attestation.encode
      (fun attestations => ({ record with attestations } : Record)) ?_ record.attestations
    intro done attestation hmem
    have hfits := hcontent 7 attestation.encode
      (List.mem_append_right _ (List.mem_map_of_mem hmem))
    simp [merge, messageField, Attestation.decode?_encode attestation hfits]
  simp [fields, List.foldlM_append, hhash, hnonce, hcreated, hsource, hidentity, hlocation,
    hattestations, followedBy]

/-- A stored record reads back, but for the sign of zeros in its location. -/
theorem decode?_encode (record : Record) (fits : record.encode.length < Varint.limit)
    (nesting : Nat) : decode? nesting record.encode = some record.normalized := by
  have hmerged := foldlM_merge_fields nesting {} record fits
  rw [decode?, encode, decode_writeAll (merge nesting) nesting {} record.isPlain_fields fits,
    hmerged, empty_followedBy]

end Record

end CalendarStamp
