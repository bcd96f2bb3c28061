import CalendarStamp.Digest

/-!
# Texts in hexadecimal

A text stands for bytes when it has an even number of hexadecimal digits and
nothing else.  Both cases are read and lowercase is written, so a text that was
read is written again in lowercase, and bytes that were written are read again.
Of a text that stands for no bytes the error says the first thing that is wrong
with it: an odd number of bytes before a byte that is no digit, and this before
a number of digits that does not fit what is read.

Main results:

- Theorem `Hex.decode_eq_ok`: what a text has in common with the text of its bytes.
- Theorem `Hex.decode_eq_error_iff`: which error a text gives.
- Theorem `hexadecimal_forms`: digests, nonces and lookup keys as hexadecimal texts.
-/

namespace CalendarStamp

open Outcome

/-! ## Texts of ASCII codes -/

namespace Utf8

/-- The text of the characters with given codes. -/
def ofCodes (codes : Bytes) : String :=
  String.ofList (codes.map fun code => Char.ofNat code.toNat)

/-- The code of an ASCII character is its only byte. -/
theorem utf8EncodeChar_ofNat {code : UInt8} (h : code.toNat < 128) :
    String.utf8EncodeChar (Char.ofNat code.toNat) = [code] := by
  have hvalid : code.toNat.isValidChar := .inl (by omega)
  have hcode : (Char.ofNat code.toNat).val.toNat = code.toNat := by
    rw [Char.ofNat, dif_pos hvalid]
    rfl
  have hsmall : code.toNat ≤ 127 := by omega
  rw [String.utf8EncodeChar, hcode, if_pos hsmall, UInt8.ofNat_toNat]

/-- The bytes of a text of ASCII codes are these codes. -/
theorem encode_ofCodes {codes : Bytes} (h : ∀ code ∈ codes, code.toNat < 128) :
    encode (ofCodes codes) = codes := by
  have hflat : (codes.map fun code => Char.ofNat code.toNat).flatMap String.utf8EncodeChar =
      codes := by
    induction codes with
    | nil => rfl
    | cons code codes ih =>
      rw [List.forall_mem_cons] at h
      rw [List.map_cons, List.flatMap_cons, utf8EncodeChar_ofNat h.1, ih h.2,
        List.singleton_append]
  rw [encode, ofCodes, String.toByteArray_ofList, List.utf8Encode, List.data_toByteArray, hflat]

/-- A text of which all bytes are ASCII codes is the text of these codes. -/
theorem eq_ofCodes {text : String} (h : ∀ code ∈ encode text, code.toNat < 128) :
    text = ofCodes (encode text) :=
  encode_injective (encode_ofCodes h).symm

end Utf8

/-! ## Digits -/

namespace Hex

/-- Whether a byte is the ASCII code of a hexadecimal digit, of either case. -/
def isDigit (code : UInt8) : Bool :=
  (48 ≤ code && code ≤ 57) || (97 ≤ code && code ≤ 102) || (65 ≤ code && code ≤ 70)

/-- Whether a text is digits only, in pairs. -/
structure IsHex (text : String) : Prop where
  even : (Utf8.encode text).length % 2 = 0
  digits : ∀ code ∈ Utf8.encode text, isDigit code = true

/-- Whether a byte is the first of given bytes that is no digit, with its position. -/
inductive IsFirstBad (byte : UInt8) : Bytes → Nat → Prop
  | here {rest : Bytes} (bad : isDigit byte = false) : IsFirstBad byte (byte :: rest) 0
  | later {code : UInt8} {rest : Bytes} {position : Nat} (good : isDigit code = true)
      (behind : IsFirstBad byte rest position) : IsFirstBad byte (code :: rest) (position + 1)

/-- A fact about every byte that can be checked byte by byte. -/
theorem forall_byte {p : UInt8 → Prop} (h : ∀ n : Fin 256, p (UInt8.ofFin n)) (code : UInt8) :
    p code :=
  h code.toFin

theorem isSome_digitValue? (code : UInt8) : (digitValue? code).isSome = isDigit code := by
  refine forall_byte (p := fun code => (digitValue? code).isSome = isDigit code) ?_ code
  decide +kernel

/-- A digit has a value below sixteen, and the lowercase digit of this value is the
digit in lowercase. -/
theorem toLower_of_digitValue? {code : UInt8} {value : Nat} (h : digitValue? code = some value) :
    value < 16 ∧ (Char.ofNat code.toNat).toLower = Char.ofNat (digit value).toNat := by
  have hall := forall_byte (p := fun code => ∀ value ∈ digitValue? code,
    value < 16 ∧ (Char.ofNat code.toNat).toLower = Char.ofNat (digit value).toNat)
    (by decide +kernel)
  exact hall code value h

theorem toNat_lt_of_isDigit {code : UInt8} (h : isDigit code = true) : code.toNat < 128 := by
  simp only [isDigit, Bool.or_eq_true, Bool.and_eq_true, decide_eq_true_eq, UInt8.le_iff_toNat_le]
    at h
  rcases h with (⟨_, h⟩ | ⟨_, h⟩) | ⟨_, h⟩ <;> exact Nat.lt_of_le_of_lt h (by decide)

/-! ## The first byte that is no digit -/

theorem IsFirstBad.bad {byte : UInt8} {digits : Bytes} {position : Nat}
    (h : IsFirstBad byte digits position) : byte ∈ digits ∧ isDigit byte = false := by
  induction h with
  | here bad => exact ⟨List.mem_cons_self, bad⟩
  | later good behind ih => exact ⟨List.mem_cons_of_mem _ ih.1, ih.2⟩

theorem IsFirstBad.unique {byte other : UInt8} {digits : Bytes} {position place : Nat}
    (h : IsFirstBad byte digits position) (h' : IsFirstBad other digits place) :
    byte = other ∧ position = place := by
  induction h generalizing place with
  | here bad =>
    cases h' with
    | here _ => exact ⟨rfl, rfl⟩
    | later good _ => exact absurd good (by simp [bad])
  | later good behind ih =>
    cases h' with
    | here bad => exact absurd good (by simp [bad])
    | later _ behind' =>
      rcases ih behind' with ⟨rfl, rfl⟩
      exact ⟨rfl, rfl⟩

/-! ## Reading pairs -/

theorem digitAt_of_isDigit {code : UInt8} (h : isDigit code = true) (position : Nat) :
    ∃ value, digitValue? code = some value ∧ digitAt position code = .ok value := by
  rw [← isSome_digitValue?, Option.isSome_iff_exists] at h
  rcases h with ⟨value, hvalue⟩
  exact ⟨value, hvalue, by rw [digitAt, hvalue]⟩

theorem digitAt_of_bad {code : UInt8} (h : isDigit code = false) (position : Nat) :
    digitAt position code = .error (.invalidDigit code position) := by
  rw [← isSome_digitValue?, Option.isSome_eq_false_iff, Option.isNone_iff_eq_none] at h
  rw [digitAt, h]

/-- A byte is joined from the values of its two digits. -/
theorem encodeDigits_join {high low : Nat} (hhigh : high < 16) (hlow : low < 16) (bytes : Bytes) :
    encodeDigits (UInt8.ofNat (16 * high + low) :: bytes) =
      digit high :: digit low :: encodeDigits bytes := by
  have hbyte : (UInt8.ofNat (16 * high + low)).toNat = 16 * high + low := by
    simp only [UInt8.toNat_ofNat']
    omega
  have hupper : (16 * high + low) / 16 = high := by omega
  have hlower : (16 * high + low) % 16 = low := by omega
  rw [encodeDigits_cons, hbyte, hupper, hlower]

/-- Pairs of digits are read as the bytes whose digits have the same values, and
other bytes are refused at the first that is no digit. -/
theorem decodePairs_cases : ∀ (position : Nat) (digits : Bytes), digits.length % 2 = 0 →
    (∃ bytes, decodePairs position digits = .ok bytes ∧ (∀ code ∈ digits, isDigit code = true) ∧
      digits.map digitValue? = (encodeDigits bytes).map digitValue?) ∨
    ∃ byte index, IsFirstBad byte digits index ∧
      decodePairs position digits = .error (.invalidDigit byte (position + index))
  | _, [], _ => .inl ⟨[], rfl, nofun, rfl⟩
  | _, [_], hodd => absurd hodd (by simp)
  | position, upper :: lower :: rest, heven => by
    have hrest : rest.length % 2 = 0 := by
      simp only [List.length_cons] at heven
      omega
    rw [decodePairs]
    cases hupper : isDigit upper with
    | false =>
      refine .inr ⟨upper, 0, .here hupper, ?_⟩
      rw [digitAt_of_bad hupper]
      rfl
    | true =>
      rcases digitAt_of_isDigit hupper position with ⟨high, hhigh, hreadHigh⟩
      rw [hreadHigh, ok_bind]
      cases hlower : isDigit lower with
      | false =>
        refine .inr ⟨lower, 1, .later hupper (.here hlower), ?_⟩
        rw [digitAt_of_bad hlower]
        rfl
      | true =>
        rcases digitAt_of_isDigit hlower (position + 1) with ⟨low, hlow, hreadLow⟩
        rw [hreadLow, ok_bind]
        rcases decodePairs_cases (position + 2) rest hrest with
          ⟨bytes, hbytes, hdigits, hvalues⟩ | ⟨byte, index, hbad, hrefused⟩
        · have hhighValue := (toLower_of_digitValue? hhigh).1
          have hlowValue := (toLower_of_digitValue? hlow).1
          refine .inl ⟨UInt8.ofNat (16 * high + low) :: bytes, by rw [hbytes]; rfl, ?_, ?_⟩
          · simp only [List.forall_mem_cons]
            exact ⟨hupper, hlower, hdigits⟩
          · rw [encodeDigits_join hhighValue hlowValue]
            simp only [List.map_cons, hhigh, hlow, hvalues, digitValue?_digit hhighValue,
              digitValue?_digit hlowValue]
        · refine .inr ⟨byte, index + 2, .later hupper (.later hlower hbad), ?_⟩
          rw [hrefused, error_bind, Nat.add_right_comm, Nat.add_assoc]

/-! ## Reading texts -/

/-- Lowercase is taken character by character. -/
theorem toList_toLower_ofCodes (codes : Bytes) :
    (Utf8.ofCodes codes).toLower.toList =
      codes.map fun code => (Char.ofNat code.toNat).toLower := by
  have hmap : (Utf8.ofCodes codes).toLower = (Utf8.ofCodes codes).map Char.toLower := rfl
  rw [hmap, String.toList_map, Utf8.ofCodes, String.toList_ofList, List.map_map]
  rfl

/-- The lowercase text of the characters with digits for codes depends on the
values of the digits alone. -/
theorem toLower_ofCodes {codes others : Bytes} (hcodes : ∀ code ∈ codes, isDigit code = true)
    (h : codes.map digitValue? = others.map digitValue?) :
    (Utf8.ofCodes codes).toLower = (Utf8.ofCodes others).toLower := by
  rw [← String.toList_inj, toList_toLower_ofCodes, toList_toLower_ofCodes]
  induction codes generalizing others with
  | nil =>
    rw [List.map_nil, eq_comm, List.map_eq_nil_iff] at h
    rw [h]
  | cons code codes ih =>
    cases others with
    | nil => cases h
    | cons other others =>
      rw [List.forall_mem_cons] at hcodes
      simp only [List.map_cons, List.cons.injEq] at h
      rcases digitAt_of_isDigit hcodes.1 0 with ⟨value, hvalue, _⟩
      have hother : digitValue? other = some value := by rw [← h.1, hvalue]
      rw [List.map_cons, List.map_cons, ih hcodes.2 h.2]
      rw [(toLower_of_digitValue? hvalue).2, (toLower_of_digitValue? hother).2]

/-- The digits that are written for bytes are digits, and lowercase ones. -/
theorem isDigit_of_mem_encodeDigits {bytes : Bytes} {code : UInt8} (h : code ∈ encodeDigits bytes) :
    isDigit code = true ∧ (Char.ofNat code.toNat).toLower = Char.ofNat code.toNat := by
  rcases List.mem_flatMap.mp h with ⟨byte, _, hcode⟩
  have hbyte := byte.toNat_lt
  have hdigit : ∀ n, n < 16 → isDigit (digit n) = true ∧
      (Char.ofNat (digit n).toNat).toLower = Char.ofNat (digit n).toNat := by
    intro n hn
    have hvalue := digitValue?_digit hn
    exact ⟨by rw [← isSome_digitValue?, hvalue]; rfl, (toLower_of_digitValue? hvalue).2⟩
  simp only [List.mem_cons, List.not_mem_nil, or_false] at hcode
  rcases hcode with rfl | rfl
  · exact hdigit _ (by omega)
  · exact hdigit _ (by omega)

/-- The bytes of a written text are its digits. -/
theorem utf8_encode (bytes : Bytes) : Utf8.encode (encode bytes) = encodeDigits bytes :=
  Utf8.encode_ofCodes fun _ hmem => toNat_lt_of_isDigit (isDigit_of_mem_encodeDigits hmem).1

/-- Bytes are written in lowercase. -/
theorem toLower_encode (bytes : Bytes) : (encode bytes).toLower = encode bytes := by
  have hcodes : ∀ code ∈ encodeDigits bytes,
      (Char.ofNat code.toNat).toLower = Char.ofNat code.toNat :=
    fun _ hmem => (isDigit_of_mem_encodeDigits hmem).2
  have hencode : encode bytes = Utf8.ofCodes (encodeDigits bytes) := rfl
  rw [← String.toList_inj, hencode, toList_toLower_ofCodes, Utf8.ofCodes, String.toList_ofList]
  exact List.map_congr_left hcodes

/-- Written bytes read back. -/
theorem decode_encode (bytes : Bytes) : decode (encode bytes) = .ok bytes := by
  have heven : (encodeDigits bytes).length % 2 = 0 := by
    rw [length_encodeDigits]
    omega
  rw [decode, utf8_encode, if_pos heven, decodePairs_encodeDigits]

/-- A text is read as bytes, two digits for each, that are written as the text in
lowercase. -/
theorem decode_eq_ok {text : String} {bytes : Bytes} (h : decode text = .ok bytes) :
    IsHex text ∧ (Utf8.encode text).length = 2 * bytes.length ∧ encode bytes = text.toLower := by
  simp only [decode] at h
  split at h
  · rename_i heven
    rcases decodePairs_cases 0 _ heven with ⟨read, hread, hdigits, hvalues⟩ | ⟨_, _, _, hrefused⟩
    · rw [hread] at h
      cases h
      have hlength := congrArg List.length hvalues
      rw [List.length_map, List.length_map, length_encodeDigits] at hlength
      have htext := Utf8.eq_ofCodes fun code hmem => toNat_lt_of_isDigit (hdigits code hmem)
      refine ⟨⟨heven, hdigits⟩, hlength, ?_⟩
      rw [← toLower_encode, htext]
      exact (toLower_ofCodes hdigits hvalues).symm
    · rw [hrefused] at h
      cases h
  · cases h

/-- Pairs of digits are read. -/
theorem decode_isOk_iff (text : String) : (∃ bytes, decode text = .ok bytes) ↔ IsHex text := by
  constructor
  · rintro ⟨bytes, h⟩
    exact (decode_eq_ok h).1
  · rintro ⟨heven, hdigits⟩
    rw [decode, if_pos heven]
    rcases decodePairs_cases 0 _ heven with ⟨bytes, hread, _, _⟩ | ⟨byte, index, hbad, _⟩
    · exact ⟨bytes, hread⟩
    · exact absurd (hdigits byte hbad.bad.1) (by simp [hbad.bad.2])

/-- Of what is wrong with a text, an odd number of bytes is reported first, and
then the first byte that is no digit. -/
theorem decode_eq_error_iff (text : String) (e : Error) :
    decode text = .error e ↔
      ((Utf8.encode text).length % 2 = 1 ∧ e = .oddLength) ∨
        ((Utf8.encode text).length % 2 = 0 ∧
          ∃ byte position, IsFirstBad byte (Utf8.encode text) position ∧
            e = .invalidDigit byte position) := by
  simp only [decode]
  split
  · rename_i heven
    rcases decodePairs_cases 0 _ heven with ⟨bytes, hread, hdigits, _⟩ | ⟨byte, index, hbad, hread⟩
    · rw [hread]
      constructor
      · intro h
        cases h
      · rintro (⟨hodd, _⟩ | ⟨_, byte, position, hbad, _⟩)
        · omega
        · exact absurd (hdigits byte hbad.bad.1) (by simp [hbad.bad.2])
    · rw [hread, Nat.zero_add, Except.error.injEq]
      constructor
      · rintro rfl
        exact .inr ⟨heven, byte, index, hbad, rfl⟩
      · rintro (⟨hodd, _⟩ | ⟨_, other, place, hbad', rfl⟩)
        · omega
        · rcases hbad.unique hbad' with ⟨rfl, rfl⟩
          rfl
  · rename_i hodd
    rw [Except.error.injEq]
    constructor
    · rintro rfl
      exact .inl ⟨by omega, rfl⟩
    · rintro (⟨_, rfl⟩ | ⟨heven, _⟩)
      · rfl
      · exact absurd heven hodd

end Hex

/-! ## Digests, nonces and lookup keys -/

/-- How values are read from and written as hexadecimal texts, where some numbers
of digits are not for these values: `misfit` is what is reported of them. -/
structure ReadsHex {α : Type} (ofHex : String → Except Error α) (toHex : α → String)
    (misfit : Nat → Option Error) : Prop where
  /-- Pairs of digits are read, if their number fits. -/
  isOk_iff (text : String) : (∃ value, ofHex text = .ok value) ↔
    Hex.IsHex text ∧ misfit (Utf8.encode text).length = none
  /-- An odd number of bytes is reported first, then the first byte that is no
  digit, then a number of digits that does not fit. -/
  error_iff (text : String) (e : Error) : ofHex text = .error e ↔
    ((Utf8.encode text).length % 2 = 1 ∧ e = .hex .oddLength) ∨
      ((Utf8.encode text).length % 2 = 0 ∧
        ∃ byte position, Hex.IsFirstBad byte (Utf8.encode text) position ∧
          e = .hex (.invalidDigit byte position)) ∨
      (Hex.IsHex text ∧ misfit (Utf8.encode text).length = some e)
  /-- A text that was read is written in lowercase. -/
  toHex_of_ofHex {text : String} {value : α} (read : ofHex text = .ok value) :
    toHex value = text.toLower
  /-- What was written is read. -/
  ofHex_toHex (value : α) : ofHex (toHex value) = .ok value

/-- A text that is read as hexadecimal fails with what is wrong with it. -/
theorem readHex_eq_error_iff (text : String) (e : Error) :
    readHex text = .error e ↔ ∃ cause, Hex.decode text = .error cause ∧ e = .hex cause := by
  rw [readHex]
  cases Hex.decode text with
  | ok bytes => simp
  | error cause => simp [eq_comm]

/-- Values that are made from bytes are read from hexadecimal texts and written as such. -/
theorem ReadsHex.of_bytes {α : Type} {make : Bytes → Except Error α} {content : α → Bytes}
    {misfit : Nat → Option Error}
    (made : ∀ {bytes value}, make bytes = .ok value → content value = bytes)
    (remade : ∀ value, make (content value) = .ok value)
    (refused : ∀ {bytes e}, make bytes = .error e ↔ misfit (2 * bytes.length) = some e) :
    ReadsHex (fun text => readHex text >>= make) (fun value => Hex.encode (content value))
      misfit where
  isOk_iff text := by
    constructor
    · rintro ⟨value, h⟩
      rcases bind_eq_ok.mp h with ⟨bytes, hread, hvalue⟩
      rcases Hex.decode_eq_ok (mapError_eq_ok.mp hread) with ⟨hhex, hlength, _⟩
      refine ⟨hhex, Option.eq_none_iff_forall_ne_some.mpr fun e he => ?_⟩
      rw [hlength] at he
      rw [refused.mpr he] at hvalue
      cases hvalue
    · rintro ⟨hhex, hfits⟩
      rcases (Hex.decode_isOk_iff text).mpr hhex with ⟨bytes, hread⟩
      rw [(Hex.decode_eq_ok hread).2.1] at hfits
      cases hmake : make bytes with
      | ok value => exact ⟨value, bind_eq_ok.mpr ⟨bytes, mapError_eq_ok.mpr hread, hmake⟩⟩
      | error e =>
        rw [refused.mp hmake] at hfits
        cases hfits
  error_iff text e := by
    rw [bind_eq_error, readHex_eq_error_iff]
    constructor
    · rintro (⟨cause, hcause, rfl⟩ | ⟨bytes, hread, hmake⟩)
      · rcases (Hex.decode_eq_error_iff text cause).mp hcause with
          ⟨hodd, rfl⟩ | ⟨heven, byte, position, hbad, rfl⟩
        · exact .inl ⟨hodd, rfl⟩
        · exact .inr (.inl ⟨heven, byte, position, hbad, rfl⟩)
      · rcases Hex.decode_eq_ok (mapError_eq_ok.mp hread) with ⟨hhex, hlength, _⟩
        rw [hlength]
        exact .inr (.inr ⟨hhex, refused.mp hmake⟩)
    · rintro (⟨hodd, rfl⟩ | ⟨heven, byte, position, hbad, rfl⟩ | ⟨hhex, hmisfit⟩)
      · exact .inl ⟨_, (Hex.decode_eq_error_iff text _).mpr (.inl ⟨hodd, rfl⟩), rfl⟩
      · have hcause := (Hex.decode_eq_error_iff text _).mpr
          (.inr ⟨heven, byte, position, hbad, rfl⟩)
        exact .inl ⟨_, hcause, rfl⟩
      · rcases (Hex.decode_isOk_iff text).mpr hhex with ⟨bytes, hread⟩
        rw [(Hex.decode_eq_ok hread).2.1] at hmisfit
        exact .inr ⟨bytes, mapError_eq_ok.mpr hread, refused.mpr hmisfit⟩
  toHex_of_ofHex {text value} h := by
    rcases bind_eq_ok.mp h with ⟨bytes, hread, hvalue⟩
    rw [made hvalue]
    exact (Hex.decode_eq_ok (mapError_eq_ok.mp hread)).2.2
  ofHex_toHex value := by
    simp only [readHex, Hex.decode_encode, mapError_ok, ok_bind, remade]

/-- Any even number of digits is a lookup key, 64 digits are a digest and 32 are a
nonce, in either case of letters.  What is read is written in lowercase, what is
written is read, and what is not read is refused for the first thing that is wrong
with it. -/
theorem hexadecimal_forms :
    ReadsHex CalendarKey.ofHex CalendarKey.toHex (fun _ => none) ∧
    ReadsHex Digest.ofHex Digest.toHex (fun digits =>
      if digits = 64 then none else some (.invalidDigestLength (digits / 2))) ∧
    ReadsHex Nonce.ofHex Nonce.toHex (fun digits =>
      if digits = 32 then none else some .invalidNonce) := by
  refine ⟨?_, ?_, ?_⟩
  · have hread : CalendarKey.ofHex = fun text => readHex text >>= fun bytes => .ok ⟨bytes⟩ := by
      funext text
      rw [CalendarKey.ofHex]
      cases readHex text <;> rfl
    rw [hread]
    refine @ReadsHex.of_bytes _ _ CalendarKey.bytes _ ?_ (fun _ => rfl) (by simp)
    intro bytes key h
    cases h
    rfl
  · refine @ReadsHex.of_bytes _ _ Digest.bytes _ ?_ Digest.ofBytes_bytes ?_
    · intro bytes digest h
      rw [Digest.ofBytes] at h
      split at h
      · cases h
        rfl
      · cases h
    · intro bytes e
      have hcount : 2 * bytes.length = 64 ↔ bytes.length = 32 := by omega
      have hhalf : 2 * bytes.length / 2 = bytes.length := by omega
      rw [Digest.ofBytes, hhalf]
      by_cases hlength : bytes.length = 32 <;> simp [hlength, hcount]
  · refine @ReadsHex.of_bytes _ _ Nonce.bytes _ ?_ Nonce.ofBytes_bytes ?_
    · intro bytes nonce h
      rw [Nonce.ofBytes] at h
      split at h
      · cases h
        rfl
      · cases h
    · intro bytes e
      have hcount : 2 * bytes.length = 32 ↔ bytes.length = 16 := by omega
      rw [Nonce.ofBytes]
      by_cases hlength : bytes.length = 16 <;> simp [hlength, hcount]

/-- Positions count bytes, of which `é` has two. -/
example : CalendarKey.ofHex "0é0" = .error (.hex (.invalidDigit 0xc3 1)) := by cbv

end CalendarStamp
