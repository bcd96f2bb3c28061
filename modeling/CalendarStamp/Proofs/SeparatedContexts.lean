import CalendarStamp.Proofs.Reloading
import CalendarStamp.Store

/-!
# What a digest tells about its context

A digest is computed from the hash, the nonce, the source, the identity and the
location, joined with nothing between them.  Identity and location cannot be
confused, since all parts of the one are texts and all parts of the other are
numbers of fixed size.  But nothing marks where the source ends: a text that
spells the beginning of the records that follow can stand at the end of the
source instead.

Main results:

- Theorem `Utf8.encode_append_eq_iff`: two texts, each before further bytes,
  give the same bytes when one goes on where the other ends.
- Theorem `records_append_inj`: the boundary between identity and location is
  not lost.
- Theorem `digestHash_separates`: contexts have different digests, unless text
  moves between source and records, or SHA-256 collides.
- Theorem `preimage_eq_iff_records`: behind one source, what a digest is computed
  from determines identity and location.
-/

namespace CalendarStamp

open Wire

/-! ## Texts before further bytes -/

namespace Utf8

@[simp] theorem encode_append (s t : String) : encode (s ++ t) = encode s ++ encode t := by
  simp [encode]

/-- A text whose bytes begin with those of another one begins with it. -/
theorem exists_append_of_encode_append {s t : String} {bytes : Bytes}
    (h : encode t = encode s ++ bytes) : ∃ rest, t = s ++ rest ∧ encode rest = bytes := by
  have hutf8 : s.toList.utf8Encode ++ (⟨bytes.toArray⟩ : ByteArray) = t.toList.utf8Encode := by
    rw [String.utf8Encode_toList, String.utf8Encode_toList]
    refine ByteArray.ext (Array.toList_inj.mp ?_)
    rw [ByteArray.data_append, Array.toList_append]
    exact h.symm
  rcases List.isPrefix_of_utf8Encode_append_eq_utf8Encode _ hutf8 with ⟨chars, hchars⟩
  have htext : t = s ++ String.ofList chars := by
    rw [← String.toList_inj, String.toList_append, String.toList_ofList, hchars]
  refine ⟨String.ofList chars, htext, ?_⟩
  rw [htext, encode_append] at h
  exact List.append_cancel_left h

/-- Two texts, each before further bytes, give the same bytes when they are the
same before the same, or when one goes on where the other ends. -/
theorem encode_append_eq_iff {s t : String} {u v : Bytes} :
    encode s ++ u = encode t ++ v ↔
      (s = t ∧ u = v) ∨
        (∃ moved, moved ≠ "" ∧ t = s ++ moved ∧ u = encode moved ++ v) ∨
        ∃ moved, moved ≠ "" ∧ s = t ++ moved ∧ v = encode moved ++ u := by
  constructor
  · intro h
    rcases List.append_eq_append_iff.mp h with ⟨bytes, htext, hrest⟩ | ⟨bytes, htext, hrest⟩
    · rcases exists_append_of_encode_append htext with ⟨moved, rfl, rfl⟩
      by_cases hempty : moved = ""
      · subst hempty
        exact .inl ⟨by simp, by simpa using hrest⟩
      · exact .inr (.inl ⟨moved, hempty, rfl, hrest⟩)
    · rcases exists_append_of_encode_append htext with ⟨moved, rfl, rfl⟩
      by_cases hempty : moved = ""
      · subst hempty
        exact .inl ⟨by simp, by simpa using hrest.symm⟩
      · exact .inr (.inr ⟨moved, hempty, rfl, hrest⟩)
  · rintro (⟨rfl, rfl⟩ | ⟨moved, _, rfl, rfl⟩ | ⟨moved, _, rfl, rfl⟩)
    · rfl
    · simp
    · simp

end Utf8

/-! ## Identity before location -/

/-- Whether a field carries a block of bytes. -/
def Wire.Field.isDelimited (field : Field) : Bool :=
  field.payload.shape = .delimited

theorem Identity.isDelimited_of_mem_fields (identity : Identity) :
    ∀ field ∈ identity.fields, field.isDelimited = true := by
  have htext (number : Nat) (text : String) :
      ∀ field ∈ textField number text, field.isDelimited = true := by
    intro field hmem
    rw [eq_of_mem_bytesField hmem]
    rfl
  simp only [fields, List.forall_mem_append]
  exact ⟨⟨⟨⟨⟨⟨⟨htext 1 _, htext 2 _⟩, htext 3 _⟩, htext 4 _⟩, htext 5 _⟩, htext 6 _⟩, htext 7 _⟩,
    htext 8 _⟩

theorem Location.isDelimited_of_mem_fields (location : Location) :
    ∀ field ∈ location.fields, field.isDelimited = false := by
  have hdouble (number : Nat) (value : Binary64) :
      ∀ field ∈ doubleField number value, field.isDelimited = false := by
    intro field hmem
    rw [eq_of_mem_doubleField hmem]
    rfl
  have hsingle (number : Nat) (value : Binary32) :
      ∀ field ∈ singleField number value, field.isDelimited = false := by
    intro field hmem
    rw [eq_of_mem_singleField hmem]
    rfl
  simp only [fields, List.forall_mem_append]
  exact ⟨⟨⟨⟨⟨hdouble 1 _, hdouble 2 _⟩, hdouble 3 _⟩, hsingle 4 _⟩, hsingle 5 _⟩, hsingle 6 _⟩

/-- The fields of an identity before those of a location are the delimited ones
among them. -/
theorem filter_isDelimited (identity : Identity) (location : Location) :
    (identity.fields ++ location.fields).filter Field.isDelimited = identity.fields := by
  rw [List.filter_append, List.filter_eq_self.mpr identity.isDelimited_of_mem_fields,
    List.filter_eq_nil_iff.mpr, List.append_nil]
  intro field hmem
  simp [location.isDelimited_of_mem_fields field hmem]

/-- The stored forms of an identity and a location in a row tell where the one
ends and the other begins. -/
theorem records_append_inj {identity identity' : Identity} {location location' : Location}
    (h : identity.encode ++ location.encode = identity'.encode ++ location'.encode) :
    identity.encode = identity'.encode ∧ location.encode = location'.encode := by
  have hfields : identity.fields ++ location.fields = identity'.fields ++ location'.fields := by
    apply Field.writeAll_injective
    rw [Field.writeAll_append, Field.writeAll_append]
    exact h
  have hidentity : identity.fields = identity'.fields := by
    rw [← filter_isDelimited identity location, hfields, filter_isDelimited]
  rw [hidentity] at hfields
  exact ⟨congrArg Field.writeAll hidentity,
    congrArg Field.writeAll (List.append_cancel_left hfields)⟩

/-! ## Digests -/

namespace Hash

/-- Whether two messages show that SHA-256 is not injective. -/
def Collision (x y : Bytes) : Prop :=
  x ≠ y ∧ sha256 x = sha256 y

/-- Messages have the same double hash when they are the same, or else they
collide or their hashes do. -/
theorem doubleSha256_eq_iff {x y : Bytes} :
    doubleSha256 x = doubleSha256 y ↔
      x = y ∨ Collision x y ∨ Collision (sha256 x) (sha256 y) := by
  constructor
  · intro h
    by_cases hmessages : x = y
    · exact .inl hmessages
    · by_cases hhashes : sha256 x = sha256 y
      · exact .inr (.inl ⟨hmessages, hhashes⟩)
      · exact .inr (.inr ⟨hhashes, h⟩)
  · rintro (rfl | ⟨_, hhashes⟩ | ⟨_, h⟩)
    · rfl
    · exact congrArg sha256 hhashes
    · exact h

end Hash

namespace Timestamp

/-- What the digest mixes in of the identity: its stored form, or nothing. -/
def identityBytes (timestamp : Timestamp) : Bytes :=
  (timestamp.identity.map Identity.encode).getD []

/-- What the digest mixes in of the location: its stored form, or nothing. -/
def locationBytes (timestamp : Timestamp) : Bytes :=
  (timestamp.location.map Location.encode).getD []

/-- An absent identity counts as one that says nothing. -/
theorem identityBytes_eq (timestamp : Timestamp) :
    timestamp.identityBytes = (timestamp.identity.getD {}).encode := by
  unfold identityBytes
  cases timestamp.identity <;> rfl

/-- An absent location counts as one that says nothing. -/
theorem locationBytes_eq (timestamp : Timestamp) :
    timestamp.locationBytes = (timestamp.location.getD {}).encode := by
  unfold locationBytes
  cases timestamp.location <;> rfl

/-- Whether a text that is spelled at the beginning of one timestamp's records
stands at the end of the other one's source instead. -/
def TextMoves (a b : Timestamp) : Prop :=
  ∃ moved, moved ≠ "" ∧ b.source = a.source ++ moved ∧
    a.identityBytes ++ a.locationBytes =
      Utf8.encode moved ++ (b.identityBytes ++ b.locationBytes)

/-- Text moves between different sources only. -/
theorem TextMoves.source_ne {a b : Timestamp} (h : TextMoves a b) : a.source ≠ b.source := by
  rcases h with ⟨moved, hmoved, hsource, _⟩
  intro hsame
  have hchars := congrArg String.toList (hsame.trans hsource)
  rw [String.toList_append, List.self_eq_append_right, String.toList_eq_nil_iff] at hchars
  exact hmoved hchars

/-- Timestamps with the same hash and nonce have the same preimage when their
contexts are the same or text moves between source and records. -/
theorem preimage_eq_iff {a b : Timestamp} (hash : a.hash = b.hash) (nonce : a.nonce = b.nonce) :
    a.preimage = b.preimage ↔
      (a.source = b.source ∧ a.identityBytes = b.identityBytes ∧
          a.locationBytes = b.locationBytes) ∨
        TextMoves a b ∨ TextMoves b a := by
  have hpreimage : a.preimage = b.preimage ↔
      Utf8.encode a.source ++ (a.identityBytes ++ a.locationBytes) =
        Utf8.encode b.source ++ (b.identityBytes ++ b.locationBytes) := by
    simp only [preimage, hash, nonce, List.append_assoc, List.append_cancel_left_eq,
      identityBytes, locationBytes]
  rw [hpreimage, Utf8.encode_append_eq_iff]
  refine or_congr ?_ Iff.rfl
  constructor
  · rintro ⟨hsource, hrecords⟩
    rw [identityBytes_eq, locationBytes_eq, identityBytes_eq, locationBytes_eq] at hrecords
    rcases records_append_inj hrecords with ⟨hidentity, hlocation⟩
    exact ⟨hsource, by rw [identityBytes_eq, identityBytes_eq, hidentity],
      by rw [locationBytes_eq, locationBytes_eq, hlocation]⟩
  · rintro ⟨hsource, hidentity, hlocation⟩
    exact ⟨hsource, by rw [hidentity, hlocation]⟩

/-- Timestamps have the same digest when they have the same preimage, or else
SHA-256 collides. -/
theorem digestHash_eq_iff {a b : Timestamp} :
    a.digestHash = b.digestHash ↔
      a.preimage = b.preimage ∨ Hash.Collision a.preimage b.preimage ∨
        Hash.Collision (Hash.sha256 a.preimage) (Hash.sha256 b.preimage) := by
  rw [← Hash.doubleSha256_eq_iff]
  exact ⟨fun h => congrArg Digest.bytes h, fun h => Digest.ext h⟩

/-- Timestamps with the same hash and nonce have the same preimage exactly when
their sources and the stored forms of their records are the same, or when text
moves between source and records.  They have the same digest exactly when they
have the same preimage or SHA-256 collides, and with different digests neither
takes the other one's place in a store. -/
theorem digestHash_separates {a b : Timestamp} (hash : a.hash = b.hash)
    (nonce : a.nonce = b.nonce) :
    (a.preimage = b.preimage ↔
        (a.source = b.source ∧ a.identityBytes = b.identityBytes ∧
            a.locationBytes = b.locationBytes) ∨
          TextMoves a b ∨ TextMoves b a) ∧
      (a.digestHash = b.digestHash ↔
        a.preimage = b.preimage ∨ Hash.Collision a.preimage b.preimage ∨
          Hash.Collision (Hash.sha256 a.preimage) (Hash.sha256 b.preimage)) ∧
      (a.digestHash ≠ b.digestHash → ∀ store : Store,
        ((store.save a).2.save b).2.lookup a.digestHash.bytes = some a.toBytes) := by
  refine ⟨preimage_eq_iff hash nonce, digestHash_eq_iff, ?_⟩
  intro hdigest store
  have hbytes : a.digestHash.bytes ≠ b.digestHash.bytes := fun h => hdigest (Digest.ext h)
  simp only [Store.save, Store.lookup_put_of_ne _ hbytes, Store.lookup_put]

/-! ## A text that spells an identity -/

/-- A timestamp whose source is a control character and a letter behind a line
break. -/
def speltOut : Timestamp :=
  { specimen with source := "\n\x01A" }

/-- A timestamp without a source whose identity is a country. -/
def filledIn : Timestamp :=
  { specimen with identity := some { countryCode := "A" } }

/-- A timestamp with that source and that country. -/
def joined : Timestamp :=
  { speltOut with identity := some { countryCode := "A" } }

/-- The stored form of a country can stand in the source: the contexts differ,
but the preimage and the digest are the same, and in a store the one timestamp
takes the place of the other. -/
theorem digestHash_speltOut :
    speltOut.hash = filledIn.hash ∧ speltOut.nonce = filledIn.nonce ∧
      speltOut.source ≠ filledIn.source ∧
      speltOut.identityBytes ≠ filledIn.identityBytes ∧
      speltOut.preimage = filledIn.preimage ∧ speltOut.digestHash = filledIn.digestHash ∧
      ∀ store : Store,
        ((store.save speltOut).2.save filledIn).2.lookup speltOut.digestHash.bytes =
          some filledIn.toBytes := by
  have hpreimage : speltOut.preimage = filledIn.preimage := by decide +kernel
  have hdigest : speltOut.digestHash = filledIn.digestHash :=
    Digest.ext (congrArg Hash.doubleSha256 hpreimage)
  refine ⟨rfl, rfl, by decide, by decide +kernel, hpreimage, hdigest, ?_⟩
  intro store
  rw [hdigest, Store.save, Store.lookup_put]

/-- With an identity that is written behind another source the digests differ, and a
store keeps both timestamps. -/
theorem digestHash_separates_joined :
    speltOut.hash = joined.hash ∧ speltOut.nonce = joined.nonce ∧
      speltOut.preimage ≠ joined.preimage ∧ speltOut.digestHash ≠ joined.digestHash ∧
      ∀ store : Store,
        ((store.save speltOut).2.save joined).2.lookup speltOut.digestHash.bytes =
          some speltOut.toBytes := by
  rcases digestHash_separates (a := speltOut) (b := joined) rfl rfl with
    ⟨hpreimage, _, hstore⟩
  have hdigest : speltOut.digestHash ≠ joined.digestHash := by decide +kernel
  refine ⟨rfl, rfl, ?_, hdigest, hstore hdigest⟩
  intro hsame
  rcases hpreimage.mp hsame with ⟨_, hidentity, _⟩ | hmoves | hmoves
  · exact absurd hidentity (by decide +kernel)
  · exact hmoves.source_ne rfl
  · exact hmoves.source_ne rfl

/-! ## Contexts with one source -/

/-- Timestamps with the same hash, nonce and source have the same preimage exactly
when their identities are the same and their locations have the same bits, where
a record that is absent counts as an empty one and a negative zero as a positive
one. -/
theorem preimage_eq_iff_records {a b : Timestamp} (hash : a.hash = b.hash)
    (nonce : a.nonce = b.nonce) (source : a.source = b.source) :
    a.preimage = b.preimage ↔
      a.identity.getD {} = b.identity.getD {} ∧
        (a.location.getD {}).normalized = (b.location.getD {}).normalized := by
  have hbytes : a.preimage = b.preimage ↔
      a.identityBytes = b.identityBytes ∧ a.locationBytes = b.locationBytes := by
    rw [preimage_eq_iff hash nonce]
    constructor
    · rintro (⟨_, hrecords⟩ | hmoves | hmoves)
      · exact hrecords
      · exact absurd source hmoves.source_ne
      · exact absurd source.symm hmoves.source_ne
    · intro hrecords
      exact .inl ⟨source, hrecords⟩
  rw [hbytes, identityBytes_eq, identityBytes_eq, locationBytes_eq, locationBytes_eq,
    Location.encode_eq_iff]
  exact and_congr_left' ⟨Identity.encode_injective, congrArg Identity.encode⟩

/-- A timestamp without an identity that was made facing a direction. -/
def facing (direction : Binary32) : Timestamp :=
  { specimen with location := some { direction } }

/-- A timestamp whose country is a letter, a state as it is stored, and nothing
more. -/
def stateInCountry : Timestamp :=
  { specimen with identity := some { countryCode := "A\x12\x01B" } }

/-- A timestamp with that country and that state. -/
def countryAndState : Timestamp :=
  { specimen with identity := some { countryCode := "A", state := "B" } }

/-- A negative zero does not tell two contexts apart.  Another bit pattern that is no
number does, and so does the border between two texts. -/
theorem preimage_eq_iff_records_oddities :
    oddities.hash = (facing ⟨0x7fc00000⟩).hash ∧ oddities.nonce = (facing ⟨0x7fc00000⟩).nonce ∧
      oddities.source = (facing ⟨0x7fc00000⟩).source ∧
      oddities.location ≠ (facing ⟨0x7fc00000⟩).location ∧
      oddities.preimage = (facing ⟨0x7fc00000⟩).preimage ∧
      oddities.preimage ≠ (facing ⟨0x7fc00001⟩).preimage ∧
      stateInCountry.preimage ≠ countryAndState.preimage := by
  have hdirection := preimage_eq_iff_records (a := oddities) (b := facing ⟨0x7fc00001⟩) rfl rfl rfl
  have hstate := preimage_eq_iff_records (a := stateInCountry) (b := countryAndState) rfl rfl rfl
  refine ⟨rfl, rfl, rfl, by decide, ?_, ?_, ?_⟩
  · exact (preimage_eq_iff_records rfl rfl rfl).mpr (by decide)
  · exact fun hsame => absurd (hdirection.mp hsame) (by decide)
  · exact fun hsame => absurd (hstate.mp hsame) (by decide)

end Timestamp

end CalendarStamp
