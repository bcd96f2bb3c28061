import CalendarStamp.Proofs.HexTexts
import CalendarStamp.Proofs.JsonTexts
import CalendarStamp.Proofs.NumberLiterals
import Mathlib.Data.List.Forall2

/-!
# The texts of a view

A view is shown on one line and with one item per line.  Both texts are JSON and
denote the view and nothing else, whatever a timestamp holds: its source, its
identity and the addresses of its calendars may be any texts.

What the view holds is given by tables of fields.  A field has a name, a condition
under which it is there, and a condition on its value.  An object that has certain
fields has those that are there in the order of the table, and no others.

Main results:

- Theorem `wellFormed_view`: all numbers in a view are numbers.
- Theorem `hasFields_view`: a view has the fields of its timestamp.
- Theorem `texts_denote_view`: both texts denote one value that has these fields.
-/

namespace CalendarStamp

namespace Json

/-! ## Fields -/

/-- What an object holds under a name. -/
structure Field where
  name : String
  /-- Whether the field is there. -/
  present : Bool := true
  /-- What its value has to be. -/
  shows : Json → Prop

/-- Whether a value is an object with exactly the fields of a table that are there,
in the order of the table. -/
def HasFields (fields : List Field) (value : Json) : Prop :=
  ∃ members, value = .object members ∧
    List.Forall₂ (fun (member : String × Json) field =>
      member.1 = field.name ∧ field.shows member.2) members (fields.filter Field.present)

/-- Whether a value is an array that shows some things one by one. -/
def ShowsAll {α : Type} (shows : α → Json → Prop) (all : List α) (value : Json) : Prop :=
  ∃ items, value = .array items ∧ List.Forall₂ (fun item x => shows x item) items all

/-- Whether a value is the text that bytes are written as. -/
def ShowsBytes (bytes : Bytes) (value : Json) : Prop :=
  ∃ text, value = .string text ∧ Hex.decode text = .ok bytes

/-- Whether a bit pattern stands for a number that is not infinite. -/
def IsFinite (format : BinaryFormat) (bits : Nat) : Prop :=
  (format.parts bits).exponent ≠ format.topExponent

/-- Whether a value is what is shown for a bit pattern: its shortest decimal, or null
where there is no finite number. -/
structure ShowsBinary (format : BinaryFormat) (style : Decimal.Style) (bits : Nat)
    (value : Json) : Prop where
  finite : IsFinite format bits → ∃ literal, value = .number literal ∧
    Decimal.text? format style bits = some literal
  infinite : ¬ IsFinite format bits → value = .null

end Json

open Json

/-- The fields of an operation. -/
def Operation.viewFields (operation : Operation) : List Field :=
  [{ name := "type", shows := (· = .string (OperationKind.labelOfCode operation.kind)) },
   { name := "value", present := operation.value ≠ [], shows := ShowsBytes operation.value },
   { name := "status"
     shows := (· = .string
       (if operation.status = 0 then "" else AttestationStatus.labelOfCode operation.status)) },
   { name := "calendarUrl"
     present := operation.calendarUrl ≠ ""
     shows := (· = .string operation.calendarUrl) },
   { name := "blockHeight"
     present := operation.blockHeight ≠ 0
     shows := (· = .natural operation.blockHeight.toNat) }]

/-- The fields of an attestation of a timestamp. -/
def Timestamp.viewFieldsOf (timestamp : Timestamp) (attestation : Attestation) :
    List Field :=
  [{ name := "calendarUrl", shows := (· = .string attestation.calendarUrl) },
   { name := "calendarKey", shows := (· = .string (timestamp.keyText attestation)) },
   { name := "submitted", shows := (· = .string (Instant.text attestation.submitted)) },
   { name := "status"
     shows := (· = .string (AttestationStatus.labelOfCode attestation.status)) },
   { name := "blockHeight", shows := (· = .natural attestation.blockHeight.toNat) },
   { name := "blockMerkleRoot", shows := ShowsBytes attestation.blockMerkleRoot },
   { name := "timestampMerkleRoot", shows := ShowsBytes attestation.timestampMerkleRoot },
   { name := "transactionId", shows := ShowsBytes attestation.transactionId },
   { name := "operations"
     shows := ShowsAll (fun operation => HasFields operation.viewFields) attestation.operations }]

/-- The fields of an identity. -/
def Identity.viewFields (identity : Identity) : List Field :=
  [{ name := "countryCode", shows := (· = .string identity.countryCode) },
   { name := "state", shows := (· = .string identity.state) },
   { name := "city", shows := (· = .string identity.city) },
   { name := "organization", shows := (· = .string identity.organization) },
   { name := "section", shows := (· = .string identity.department) },
   { name := "commonName", shows := (· = .string identity.commonName) },
   { name := "email", shows := (· = .string identity.email) },
   { name := "fullName", shows := (· = .string identity.fullName) }]

/-- What is shown for a double. -/
def Binary64.Shows (x : Binary64) : Json → Prop :=
  ShowsBinary .double .double x.bits.toNat

/-- What is shown for a single. -/
def Binary32.Shows (x : Binary32) : Json → Prop :=
  ShowsBinary .single .single x.bits.toNat

/-- The fields of a location. -/
def Location.viewFields (location : Location) : List Field :=
  [{ name := "latitude", shows := location.latitude.Shows },
   { name := "longitude", shows := location.longitude.Shows },
   { name := "altitude", shows := location.altitude.Shows },
   { name := "accuracyMeters", shows := location.accuracyMeters.Shows },
   { name := "direction", shows := location.direction.Shows },
   { name := "velocity", shows := location.velocity.Shows }]

/-- The fields of a timestamp. -/
def Timestamp.viewFields (timestamp : Timestamp) : List Field :=
  [{ name := "hash", shows := ShowsBytes timestamp.hash },
   { name := "nonce", shows := ShowsBytes timestamp.nonce },
   { name := "digestHash", shows := ShowsBytes timestamp.digestHash.bytes },
   { name := "created", shows := (· = .string (Instant.text timestamp.created)) },
   { name := "source", shows := (· = .string timestamp.source) },
   { name := "identity"
     present := timestamp.identity.isSome
     shows := fun value => ∀ identity ∈ timestamp.identity, HasFields identity.viewFields value },
   { name := "location"
     present := timestamp.location.isSome
     shows := fun value => ∀ location ∈ timestamp.location, HasFields location.viewFields value },
   { name := "attestations"
     shows := ShowsAll (fun attestation => HasFields (timestamp.viewFieldsOf attestation))
       timestamp.attestations }]

/-! ## What a view holds -/

theorem Json.showsBytes_hex (bytes : Bytes) : ShowsBytes bytes (.hex bytes) :=
  ⟨Hex.encode bytes, rfl, Hex.decode_encode bytes⟩

/-- What is shown item by item. -/
theorem Json.showsAll_map {α : Type} {shows : α → Json → Prop} {view : α → Json} (all : List α)
    (h : ∀ x ∈ all, shows x (view x)) : ShowsAll shows all (.array (all.map view)) := by
  refine ⟨_, rfl, ?_⟩
  rw [List.forall₂_map_left_iff, List.forall₂_same]
  exact h

/-- What is shown for a bit pattern of a format. -/
theorem Json.showsBinary_text? (format : BinaryFormat) (style : Decimal.Style) (bits : Nat) :
    ShowsBinary format style bits (((Decimal.text? format style bits).map number).getD null) := by
  by_cases hfinite : (format.parts bits).exponent = format.topExponent
  · have hnone : Decimal.text? format style bits = none := if_pos hfinite
    rw [hnone]
    exact ⟨fun h => absurd hfinite h, fun _ => rfl⟩
  · have hsome : ∃ literal, Decimal.text? format style bits = some literal := ⟨_, if_neg hfinite⟩
    rcases hsome with ⟨literal, hliteral⟩
    rw [hliteral]
    exact ⟨fun _ => ⟨literal, rfl, hliteral⟩, fun h => absurd hfinite h⟩

theorem Operation.hasFields_view (operation : Operation) :
    HasFields operation.viewFields operation.view := by
  refine ⟨_, rfl, ?_⟩
  by_cases hvalue : operation.value = [] <;> by_cases hurl : operation.calendarUrl = "" <;>
    by_cases hheight : operation.blockHeight = 0 <;>
    simp [viewFields, memberIf, hvalue, hurl, hheight, showsBytes_hex]

theorem Identity.hasFields_view (identity : Identity) :
    HasFields identity.viewFields identity.view := by
  refine ⟨_, rfl, ?_⟩
  simp [viewFields]

theorem Location.hasFields_view (location : Location) :
    HasFields location.viewFields location.view := by
  refine ⟨_, rfl, ?_⟩
  simp [viewFields, Binary64.Shows, Binary32.Shows, double, single, showsBinary_text?]

namespace Timestamp

theorem hasFields_viewAttestation (timestamp : Timestamp) (attestation : Attestation) :
    HasFields (timestamp.viewFieldsOf attestation) (timestamp.viewAttestation attestation) := by
  have hoperations := showsAll_map attestation.operations fun operation _ =>
    operation.hasFields_view
  refine ⟨_, rfl, ?_⟩
  simp [viewFieldsOf, showsBytes_hex, hoperations]

/-- A view has the fields of its timestamp. -/
theorem hasFields_view (timestamp : Timestamp) : HasFields timestamp.viewFields timestamp.view := by
  have hattestations := showsAll_map timestamp.attestations fun attestation _ =>
    timestamp.hasFields_viewAttestation attestation
  have hdigest : ShowsBytes timestamp.digestHash.bytes (.string timestamp.digestHash.toHex) :=
    showsBytes_hex _
  refine ⟨_, rfl, ?_⟩
  cases hidentity : timestamp.identity <;> cases hlocation : timestamp.location <;>
    simp [viewFields, hidentity, hlocation, showsBytes_hex, hdigest, hattestations,
      Identity.hasFields_view, Location.hasFields_view]

end Timestamp

/-! ## Numbers in a view -/

namespace Json

theorem wellFormed_natural (n : Nat) : WellFormed (.natural n) :=
  .number (isNumber_toString n)

theorem wellFormed_binary {format : BinaryFormat} (hwidth : format.fractionWidth ≤ 52)
    (style : Decimal.Style) (bits : Nat) :
    WellFormed (((Decimal.text? format style bits).map number).getD null) := by
  cases htext : Decimal.text? format style bits with
  | none => exact .null
  | some literal => exact .number (Decimal.isNumber_of_text? hwidth htext)

theorem wellFormed_double (x : Binary64) : WellFormed (.double x) :=
  wellFormed_binary (by decide) _ _

theorem wellFormed_single (x : Binary32) : WellFormed (.single x) :=
  wellFormed_binary (by decide) _ _

theorem wellFormed_memberIf (condition : Bool) (name : String) {value : Json}
    (h : WellFormed value) : ∀ member ∈ memberIf condition name value, WellFormed member.2 := by
  cases condition <;> simp [memberIf, h]

theorem wellFormed_map {α : Type} {view : α → Json} (all : List α)
    (h : ∀ x, WellFormed (view x)) : WellFormed (.array (all.map view)) := by
  refine .array fun item hitem => ?_
  rcases List.mem_map.mp hitem with ⟨x, _, rfl⟩
  exact h x

end Json

theorem Operation.wellFormed_view (operation : Operation) : WellFormed operation.view := by
  refine .object ?_
  simp only [List.forall_mem_append, List.forall_mem_singleton]
  exact ⟨⟨⟨⟨.string _, wellFormed_memberIf _ _ (.string _)⟩, .string _⟩,
    wellFormed_memberIf _ _ (.string _)⟩, wellFormed_memberIf _ _ (wellFormed_natural _)⟩

theorem Identity.wellFormed_view (identity : Identity) : WellFormed identity.view := by
  refine .object ?_
  simp [WellFormed.string]

theorem Location.wellFormed_view (location : Location) : WellFormed location.view := by
  refine .object ?_
  simp [wellFormed_double, wellFormed_single]

namespace Timestamp

theorem wellFormed_viewAttestation (timestamp : Timestamp) (attestation : Attestation) :
    WellFormed (timestamp.viewAttestation attestation) := by
  have hoperations := wellFormed_map attestation.operations Operation.wellFormed_view
  refine .object ?_
  simp [WellFormed.string, wellFormed_natural, hoperations, hex]

/-- All numbers in a view are numbers. -/
theorem wellFormed_view (timestamp : Timestamp) : WellFormed timestamp.view := by
  have hattestations := wellFormed_map timestamp.attestations timestamp.wellFormed_viewAttestation
  refine .object ?_
  cases timestamp.identity <;> cases timestamp.location <;>
    simp [WellFormed.string, hattestations, hex, Identity.wellFormed_view, Location.wellFormed_view]

/-! ## The two texts -/

/-- The text of a timestamp behind the name of the format, and the text with one
item per line, are JSON.  Both denote the same value and no other, and this value is
an object with exactly the fields of the timestamp, in order. -/
theorem texts_denote_view (timestamp : Timestamp) :
    ∃ text value, timestamp.summary = "SimpleStamp: " ++ text ∧
      (∀ other, Denotes text other ↔ other = value) ∧
      (∀ other, Denotes timestamp.view.pretty other ↔ other = value) ∧
      HasFields timestamp.viewFields value := by
  have hsummary : timestamp.summary = "SimpleStamp: " ++ timestamp.view.compact := by
    rw [summary]
  exact ⟨timestamp.view.compact, timestamp.view, hsummary,
    (denotes_compact timestamp.wellFormed_view).iff_eq,
    (denotes_pretty timestamp.wellFormed_view).iff_eq, timestamp.hasFields_view⟩

end Timestamp

end CalendarStamp
