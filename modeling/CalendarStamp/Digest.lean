import CalendarStamp.Error

/-!
# Digests, nonces and lookup keys

The three sorts of byte strings that people see in hexadecimal.  A digest has
32 bytes and a nonce 16, which their types record; a lookup key may have any
length.
-/

namespace CalendarStamp

/-- Read hexadecimal text, reporting a bad text as an error of the library. -/
def readHex (text : String) : Except Error Bytes :=
  (Hex.decode text).mapError Error.hex

/-! ## Digests -/

/-- What a timestamp is stored under and what calendars are sent: 32 bytes. -/
structure Digest where
  bytes : Bytes
  length_eq : bytes.length = 32
deriving DecidableEq

namespace Digest

/-- The digest with the given bytes, if there are 32. -/
def ofBytes (bytes : Bytes) : Except Error Digest :=
  if h : bytes.length = 32 then .ok ⟨bytes, h⟩ else .error (.invalidDigestLength bytes.length)

/-- The digest that a hexadecimal text stands for. -/
def ofHex (text : String) : Except Error Digest :=
  readHex text >>= ofBytes

/-- The lowercase hexadecimal text of a digest. -/
def toHex (digest : Digest) : String :=
  Hex.encode digest.bytes

/-- A short form for logs: the type's name and the first eight bytes. -/
def summary (digest : Digest) : String :=
  "Digest(" ++ Hex.encode (digest.bytes.take 8) ++ ")"

@[simp] theorem ofBytes_bytes (digest : Digest) : ofBytes digest.bytes = .ok digest := by
  simp [ofBytes, digest.length_eq]

/-- Digests with the same bytes are equal. -/
@[ext] theorem ext {a b : Digest} (h : a.bytes = b.bytes) : a = b := by
  cases a; cases b; simp_all

end Digest

/-! ## Nonces -/

/-- Random bytes that make the digest of equal files differ: 16 bytes. -/
structure Nonce where
  bytes : Bytes
  length_eq : bytes.length = 16
deriving DecidableEq

namespace Nonce

/-- The nonce with the given bytes, if there are 16. -/
def ofBytes (bytes : Bytes) : Except Error Nonce :=
  if h : bytes.length = 16 then .ok ⟨bytes, h⟩ else .error .invalidNonce

/-- The nonce that a hexadecimal text stands for. -/
def ofHex (text : String) : Except Error Nonce :=
  readHex text >>= ofBytes

/-- The lowercase hexadecimal text of a nonce. -/
def toHex (nonce : Nonce) : String :=
  Hex.encode nonce.bytes

/-- A short form for logs: the type's name and the first eight bytes. -/
def summary (nonce : Nonce) : String :=
  "Nonce(" ++ Hex.encode (nonce.bytes.take 8) ++ "...)"

@[simp] theorem ofBytes_bytes (nonce : Nonce) : ofBytes nonce.bytes = .ok nonce := by
  simp [ofBytes, nonce.length_eq]

end Nonce

/-! ## Lookup keys -/

/-- What a calendar looks up an attestation under. -/
structure CalendarKey where
  bytes : Bytes
deriving DecidableEq

namespace CalendarKey

/-- The key that a hexadecimal text stands for. -/
def ofHex (text : String) : Except Error CalendarKey :=
  CalendarKey.mk <$> readHex text

/-- The lowercase hexadecimal text of a key. -/
def toHex (key : CalendarKey) : String :=
  Hex.encode key.bytes

/-- A form for logs: the type's name and the whole key. -/
def summary (key : CalendarKey) : String :=
  "CalendarKey(" ++ key.toHex ++ ")"

end CalendarKey

end CalendarStamp
