import CalendarStamp.Proofs.Numerals
import CalendarStamp.Proofs.ParsedChain
import Mathlib.Data.List.Forall2

/-!
# The grammar of chains

A chain is the bytes of its operations, one after the other.  The grammar says
what the bytes of an operation are, without saying how to read them.  It leaves
open how freely a chain may be spelled, since reading is lenient where writing
is strict.

Main results:

- Theorem `isTag_iff`: every tag announces one status.
- Theorem `readPayload_eq_ok_iff`: a payload is read within its own bytes.
- Theorems `isOperation_of_readOperation` and `readOperation_of_isOperation`: an
  operation is read when it stands in front of the bytes.
- Theorem `parse_append_of_isChain`: a chain of the lenient grammar can be read in
  front of any other bytes.
- Theorems `isChain_of_parse` and `parse_of_isChain`: what can be read is a chain
  of the lenient grammar, and every such chain can be read.
-/

namespace CalendarStamp.Chain

open Outcome Varint

/-! ## Tags -/

/-- Whether bytes are the tag of an attestation that announces a status.  Three
statuses have a tag of their own; every other tag announces an unknown one. -/
inductive IsTag : Bytes → AttestationStatus → Prop
  | bitcoin : IsTag [0x05, 0x88, 0x96, 0x0d, 0x73, 0xd7, 0x19, 0x01] .bitcoin
  | litecoin : IsTag [0x06, 0x86, 0x9a, 0x0d, 0x73, 0xd7, 0x1b, 0x45] .litecoin
  | pending : IsTag [0x83, 0xdf, 0xe3, 0x0d, 0x2e, 0xf9, 0x0c, 0x8e] .pending
  | unknown {tag : Bytes} (length : tag.length = 8)
      (unfamiliar : ∀ status, tagOf status ≠ some tag) : IsTag tag .unknown

/-- The tag of a status announces it. -/
theorem isTag_of_tagOf {tag : Bytes} {status : AttestationStatus} (h : tagOf status = some tag) :
    IsTag tag status := by
  cases status with
  | bitcoin =>
    cases h
    exact .bitcoin
  | litecoin =>
    cases h
    exact .litecoin
  | pending =>
    cases h
    exact .pending
  | invalid => cases h
  | unknown => cases h

/-- Every tag announces one status. -/
theorem isTag_iff {tag : Bytes} {status : AttestationStatus} :
    IsTag tag status ↔ tag.length = tagLength ∧ statusOfTag tag = status := by
  constructor
  · intro h
    cases h with
    | bitcoin => decide
    | litecoin => decide
    | pending => decide
    | unknown length unfamiliar =>
      have hnone : AttestationStatus.all.find? (fun known => tagOf known = some tag) = none := by
        apply List.find?_eq_none.mpr
        intro known _
        simpa using unfamiliar known
      refine ⟨length, ?_⟩
      rw [statusOfTag, hnone, Option.getD_none]
  · rintro ⟨hlength, rfl⟩
    cases hfound : AttestationStatus.all.find? (fun known => tagOf known = some tag) with
    | some known =>
      have hknown : tagOf known = some tag := by simpa using List.find?_some hfound
      rw [statusOfTag_tagOf hknown]
      exact isTag_of_tagOf hknown
    | none =>
      rw [statusOfTag, hfound, Option.getD_none]
      refine .unknown hlength ?_
      intro known hknown
      have hmem : known ∈ AttestationStatus.all := by cases known <;> decide
      have hnot := List.find?_eq_none.mp hfound known hmem
      simp [hknown] at hnot

theorem IsTag.ne_invalid {tag : Bytes} {status : AttestationStatus} (h : IsTag tag status) :
    status ≠ .invalid := by
  cases h <;> decide

/-! ## Spellings -/

/-- How freely a chain is spelled: which bytes stand for a number, and which may
follow the content of a payload. -/
structure Spelling where
  numeral : Bytes → Nat → Prop
  surplus : Bytes → Prop

namespace Spelling

/-- Every numeral stands for its number, and anything may follow the content of
a payload. -/
def lenient : Spelling where
  numeral := IsNumeral
  surplus _ := True

/-- Numbers are as short as they can be, and nothing follows the content of a
payload. -/
def strict : Spelling where
  numeral := IsShortest
  surplus bytes := bytes = []

/-- Whether bytes are a block: a length and then so many bytes of content. -/
def IsBlock (spelling : Spelling) (bytes content : Bytes) : Prop :=
  ∃ digits, spelling.numeral digits content.length ∧ bytes = digits ++ content

/-- Whether bytes are the payload of an attestation, by the status that its tag
announces.  A pending one names its calendar in UTF-8, an anchored one gives a
height, and of an unknown one nothing is known. -/
inductive IsPayload (spelling : Spelling) : AttestationStatus → Bytes → Operation → Prop
  | pending {calendarUrl : String} {block surplus : Bytes}
      (address : spelling.IsBlock block (Utf8.encode calendarUrl))
      (tail : spelling.surplus surplus) :
      IsPayload spelling .pending (block ++ surplus) (.pending calendarUrl)
  | anchored {status : AttestationStatus} {blockHeight : UInt32} {digits surplus : Bytes}
      (chain : status = .bitcoin ∨ status = .litecoin)
      (height : spelling.numeral digits blockHeight.toNat) (tail : spelling.surplus surplus) :
      IsPayload spelling status (digits ++ surplus) (.anchored status blockHeight)
  | unknown (payload : Bytes) : IsPayload spelling .unknown payload .unknownAttestation

/-- Whether bytes are those of an operation.  What an operation has no bytes for
is empty or zero. -/
inductive IsOperation (spelling : Spelling) : Bytes → Operation → Prop
  | sha1 : IsOperation spelling [0x02] .sha1
  | ripemd160 : IsOperation spelling [0x03] .ripemd160
  | sha256 : IsOperation spelling [0x08] .sha256
  | append {block value : Bytes} (framed : spelling.IsBlock block value) :
      IsOperation spelling (0xf0 :: block) (.append value)
  | prepend {block value : Bytes} (framed : spelling.IsBlock block value) :
      IsOperation spelling (0xf1 :: block) (.prepend value)
  | attestation {tag block payload : Bytes} {status : AttestationStatus} {operation : Operation}
      (tagged : IsTag tag status) (framed : spelling.IsBlock block payload)
      (content : spelling.IsPayload status payload operation) :
      IsOperation spelling (0x00 :: (tag ++ block)) operation

/-- Whether bytes are those of a chain: the bytes of its operations in order. -/
def IsChain (spelling : Spelling) (bytes : Bytes) (operations : List Operation) : Prop :=
  ∃ pieces, List.Forall₂ spelling.IsOperation pieces operations ∧ bytes = pieces.flatten

end Spelling

/-! ## Reading follows the lenient grammar -/

open Spelling

/-- A block is read when it is one, and the bytes after it are left. -/
theorem readBlock_eq_ok_iff_isBlock {bytes content rest : Bytes} :
    readBlock bytes = .ok (content, rest) ↔
      ∃ block, lenient.IsBlock block content ∧ bytes = block ++ rest := by
  rw [readBlock_eq_ok_iff]
  constructor
  · rintro ⟨digits, hnumeral, hbytes⟩
    exact ⟨digits ++ content, ⟨digits, hnumeral, rfl⟩, hbytes⟩
  · rintro ⟨block, ⟨digits, hnumeral, rfl⟩, hbytes⟩
    exact ⟨digits, hnumeral, hbytes⟩

theorem readBlock_append {block content : Bytes} (h : lenient.IsBlock block content)
    (rest : Bytes) : readBlock (block ++ rest) = .ok (content, rest) :=
  readBlock_eq_ok_iff_isBlock.mpr ⟨block, h, rfl⟩

/-- A payload is read when it is one, within its own bytes. -/
theorem readPayload_eq_ok_iff {status : AttestationStatus} {payload : Bytes}
    {operation : Operation} (h : status ≠ .invalid) :
    readPayload status payload = .ok operation ↔ lenient.IsPayload status payload operation := by
  constructor
  · intro hread
    cases status with
    | invalid => exact absurd rfl h
    | pending =>
      rcases bind_eq_ok.mp hread with ⟨⟨url, surplus⟩, hblock, hurl⟩
      rcases readBlock_eq_ok_iff_isBlock.mp hblock with ⟨block, hframed, rfl⟩
      simp only at hurl
      split at hurl
      · rename_i calendarUrl hdecoded
        cases hurl
        rw [← Utf8.encode_of_decode? hdecoded] at hframed
        exact .pending hframed trivial
      · cases hurl
    | bitcoin | litecoin =>
      rcases bind_eq_ok.mp hread with ⟨⟨height, surplus⟩, hnumber, hheight⟩
      rcases read_eq_ok_iff.mp hnumber with ⟨digits, hnumeral, rfl⟩
      simp only at hheight
      split at hheight
      · rename_i hsmall
        cases hheight
        have hsame : (UInt32.ofNat height).toNat = height := by
          simp only [UInt32.toNat_ofNat']
          exact Nat.mod_eq_of_lt hsmall
        exact .anchored (by decide) (hsame.symm ▸ hnumeral) trivial
      · cases hheight
    | unknown =>
      cases hread
      exact .unknown payload
  · intro hpayload
    cases hpayload with
    | pending address tail =>
      rw [readPayload, readBlock_append address, ok_bind]
      simp only [Utf8.decode?_encode]
      rfl
    | @anchored _ blockHeight digits surplus chain height tail =>
      have hnumber : Varint.read (digits ++ surplus) = .ok (blockHeight.toNat, surplus) :=
        read_eq_ok_iff.mpr ⟨digits, height, rfl⟩
      have hsmall : blockHeight.toNat < heightLimit := blockHeight.toNat_lt
      rcases chain with rfl | rfl <;> simp [readPayload, hnumber, hsmall]
    | unknown => rfl

/-- An attestation is read as its tag, the block of its payload and what is in it. -/
theorem readAttestation_eq_ok_iff {bytes rest : Bytes} {operation : Operation} :
    readAttestation bytes = .ok (operation, rest) ↔
      ∃ tag status block payload, IsTag tag status ∧ lenient.IsBlock block payload ∧
        lenient.IsPayload status payload operation ∧ bytes = tag ++ block ++ rest := by
  unfold readAttestation
  constructor
  · intro h
    split at h
    · cases h
    · rename_i hlong
      rcases bind_eq_ok.mp h with ⟨⟨payload, tail⟩, hblock, hpayload⟩
      rcases bind_eq_ok.mp hpayload with ⟨read, hread, hresult⟩
      cases hresult
      rcases readBlock_eq_ok_iff_isBlock.mp hblock with ⟨block, hframed, hbytes⟩
      have htag : IsTag (bytes.take tagLength) (statusOfTag (bytes.take tagLength)) := by
        refine isTag_iff.mpr ⟨?_, rfl⟩
        rw [List.length_take]
        omega
      refine ⟨_, _, block, payload, htag, hframed, ?_, ?_⟩
      · exact (readPayload_eq_ok_iff htag.ne_invalid).mp hread
      · rw [List.append_assoc, ← hbytes, List.take_append_drop]
  · rintro ⟨tag, status, block, payload, htag, hframed, hpayload, rfl⟩
    rcases isTag_iff.mp htag with ⟨hlength, hstatus⟩
    have hlong : ¬(tag ++ block ++ rest).length < tagLength := by
      simp only [List.length_append]
      omega
    have htake : (tag ++ block ++ rest).take tagLength = tag := by
      rw [← hlength, List.append_assoc, List.take_left]
    have hdrop : (tag ++ block ++ rest).drop tagLength = block ++ rest := by
      rw [← hlength, List.append_assoc, List.drop_left]
    have hread := (readPayload_eq_ok_iff htag.ne_invalid).mpr hpayload
    rw [if_neg hlong, htake, hdrop, readBlock_append hframed, hstatus, ok_bind]
    simp only [hread, ok_bind, pure_eq]

/-- What is read from the front of the bytes is an operation that stands there. -/
theorem isOperation_of_readOperation {tag : UInt8} {bytes rest : Bytes} {operation : Operation}
    (h : readOperation tag bytes = .ok (operation, rest)) :
    ∃ piece, lenient.IsOperation piece operation ∧ tag :: bytes = piece ++ rest := by
  unfold readOperation at h
  split at h
  · rename_i kind hkind
    rw [← OperationKind.tag_of_ofTag? hkind]
    cases kind with
    | attestation =>
      rcases readAttestation_eq_ok_iff.mp h with
        ⟨marker, status, block, payload, htag, hframed, hpayload, rfl⟩
      exact ⟨_, .attestation htag hframed hpayload, rfl⟩
    | sha1 =>
      cases h
      exact ⟨_, .sha1, rfl⟩
    | ripemd160 =>
      cases h
      exact ⟨_, .ripemd160, rfl⟩
    | sha256 =>
      cases h
      exact ⟨_, .sha256, rfl⟩
    | append =>
      rcases bind_eq_ok.mp h with ⟨⟨value, tail⟩, hblock, hresult⟩
      rcases readBlock_eq_ok_iff_isBlock.mp hblock with ⟨block, hframed, rfl⟩
      cases hresult
      exact ⟨_, .append hframed, rfl⟩
    | prepend =>
      rcases bind_eq_ok.mp h with ⟨⟨value, tail⟩, hblock, hresult⟩
      rcases readBlock_eq_ok_iff_isBlock.mp hblock with ⟨block, hframed, rfl⟩
      cases hresult
      exact ⟨_, .prepend hframed, rfl⟩
  · cases h

/-- An operation that stands in front of other bytes is read, and they are left. -/
theorem readOperation_of_isOperation {tag : UInt8} {bytes piece rest : Bytes}
    {operation : Operation} (h : lenient.IsOperation piece operation)
    (hbytes : tag :: bytes = piece ++ rest) :
    readOperation tag bytes = .ok (operation, rest) := by
  have hkind : ∀ kind : OperationKind, kind.tag = tag →
      readOperation tag bytes = readBody kind bytes := by
    rintro kind rfl
    rw [readOperation, OperationKind.ofTag?_tag]
  cases h with
  | sha1 =>
    cases hbytes
    exact hkind .sha1 rfl
  | ripemd160 =>
    cases hbytes
    exact hkind .ripemd160 rfl
  | sha256 =>
    cases hbytes
    exact hkind .sha256 rfl
  | append framed =>
    rw [List.cons_append] at hbytes
    rcases List.cons.inj hbytes with ⟨rfl, rfl⟩
    rw [hkind .append rfl, readBody, readBlock_append framed]
    rfl
  | prepend framed =>
    rw [List.cons_append] at hbytes
    rcases List.cons.inj hbytes with ⟨rfl, rfl⟩
    rw [hkind .prepend rfl, readBody, readBlock_append framed]
    rfl
  | attestation tagged framed content =>
    rw [List.cons_append] at hbytes
    rcases List.cons.inj hbytes with ⟨rfl, rfl⟩
    rw [hkind .attestation rfl, readBody]
    exact readAttestation_eq_ok_iff.mpr ⟨_, _, _, _, tagged, framed, content, rfl⟩

/-! ## Chains -/

namespace Spelling

theorem isChain_nil (spelling : Spelling) : spelling.IsChain [] [] :=
  ⟨[], .nil, rfl⟩

theorem IsChain.cons {spelling : Spelling} {piece bytes : Bytes} {operation : Operation}
    {operations : List Operation} (hpiece : spelling.IsOperation piece operation)
    (hrest : spelling.IsChain bytes operations) :
    spelling.IsChain (piece ++ bytes) (operation :: operations) := by
  rcases hrest with ⟨pieces, hpieces, rfl⟩
  exact ⟨piece :: pieces, .cons hpiece hpieces, rfl⟩

/-- The bytes of an operation start with that of its kind. -/
theorem IsOperation.exists_cons {spelling : Spelling} {piece : Bytes} {operation : Operation}
    (h : spelling.IsOperation piece operation) : ∃ tag body, piece = tag :: body := by
  cases h <;> exact ⟨_, _, rfl⟩

/-! ### Strict spellings are lenient ones -/

theorem IsBlock.lenient {block content : Bytes} (h : strict.IsBlock block content) :
    lenient.IsBlock block content := by
  rcases h with ⟨digits, hshortest, rfl⟩
  exact ⟨digits, hshortest.numeral, rfl⟩

theorem IsPayload.lenient {status : AttestationStatus} {payload : Bytes} {operation : Operation}
    (h : strict.IsPayload status payload operation) :
    lenient.IsPayload status payload operation := by
  cases h with
  | pending address tail => exact .pending address.lenient trivial
  | anchored chain height tail => exact .anchored chain height.numeral trivial
  | unknown => exact .unknown payload

theorem IsOperation.lenient {piece : Bytes} {operation : Operation}
    (h : strict.IsOperation piece operation) : lenient.IsOperation piece operation := by
  cases h with
  | sha1 => exact .sha1
  | ripemd160 => exact .ripemd160
  | sha256 => exact .sha256
  | append framed => exact .append framed.lenient
  | prepend framed => exact .prepend framed.lenient
  | attestation tagged framed content => exact .attestation tagged framed.lenient content.lenient

theorem IsChain.lenient {bytes : Bytes} {operations : List Operation}
    (h : strict.IsChain bytes operations) : lenient.IsChain bytes operations := by
  rcases h with ⟨pieces, hpieces, rfl⟩
  exact ⟨pieces, hpieces.imp fun _ _ => IsOperation.lenient, rfl⟩

end Spelling

/-- What can be read is a chain. -/
theorem isChain_of_parse {bytes : Bytes} {operations : List Operation}
    (h : parse bytes = .ok operations) : lenient.IsChain bytes operations := by
  induction hlength : bytes.length using Nat.strongRecOn generalizing bytes operations with
  | ind length ih =>
    cases bytes with
    | nil =>
      rw [parse_nil] at h
      cases h
      exact isChain_nil lenient
    | cons tag bytes =>
      rw [parse_cons] at h
      rcases bind_eq_ok.mp h with ⟨⟨first, rest⟩, hfirst, hparsed⟩
      rcases map_eq_ok.mp hparsed with ⟨others, hothers, rfl⟩
      have hshorter : rest.length < length := by
        have := readOperation_length hfirst
        simp only [List.length_cons] at hlength
        omega
      have hrest := ih _ hshorter hothers rfl
      rcases isOperation_of_readOperation hfirst with ⟨piece, hpiece, hbytes⟩
      rw [hbytes]
      exact .cons hpiece hrest

/-- A chain that stands in front of other bytes is read as its operations, and then
the other bytes are read. -/
theorem parse_append_of_isChain {bytes : Bytes} {operations : List Operation}
    (h : lenient.IsChain bytes operations) (more : Bytes) :
    parse (bytes ++ more) = (operations ++ ·) <$> parse more := by
  rcases h with ⟨pieces, hpieces, rfl⟩
  induction hpieces with
  | nil => simp
  | @cons piece operation pieces operations hpiece _ ih =>
    rcases hpiece.exists_cons with ⟨tag, body, rfl⟩
    have hfirst : readOperation tag (body ++ (pieces.flatten ++ more)) =
        .ok (operation, pieces.flatten ++ more) :=
      readOperation_of_isOperation hpiece rfl
    rw [List.flatten_cons, List.append_assoc, List.cons_append, parse_cons, hfirst, ok_bind]
    simp only [ih]
    cases parse more <;> rfl

/-- A chain is read as its operations. -/
theorem parse_of_isChain {bytes : Bytes} {operations : List Operation}
    (h : lenient.IsChain bytes operations) : parse bytes = .ok operations := by
  have hread := parse_append_of_isChain h []
  rwa [List.append_nil, parse_nil, map_ok, List.append_nil] at hread

/-- The byte strings that can be read, and what they are read as, are the chains
of the lenient grammar and their operations. -/
theorem parse_eq_ok_iff (bytes : Bytes) (operations : List Operation) :
    parse bytes = .ok operations ↔ lenient.IsChain bytes operations :=
  ⟨isChain_of_parse, parse_of_isChain⟩

end CalendarStamp.Chain
