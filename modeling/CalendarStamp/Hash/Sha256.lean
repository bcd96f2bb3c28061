import CalendarStamp.Hash.Block

/-!
# SHA-256

The hash function that calendars apply most, and the one that gives a
timestamp its digest.  A block is expanded to sixty-four words by a sliding
window of sixteen, and each word drives one round.

Main results:

- Theorem `length_sha256`: a digest has 32 bytes.
-/

namespace CalendarStamp.Hash

namespace Sha256

/-- The eight chaining words. -/
structure State where
  a : UInt32
  b : UInt32
  c : UInt32
  d : UInt32
  e : UInt32
  f : UInt32
  g : UInt32
  h : UInt32

/-- The chaining words before the first block. -/
def initial : State :=
  ⟨0x6a09e667, 0xbb67ae85, 0x3c6ef372, 0xa54ff53a,
    0x510e527f, 0x9b05688c, 0x1f83d9ab, 0x5be0cd19⟩

/-- The constants of the sixty-four rounds. -/
def constants : List UInt32 :=
  [0x428a2f98, 0x71374491, 0xb5c0fbcf, 0xe9b5dba5, 0x3956c25b, 0x59f111f1, 0x923f82a4, 0xab1c5ed5,
   0xd807aa98, 0x12835b01, 0x243185be, 0x550c7dc3, 0x72be5d74, 0x80deb1fe, 0x9bdc06a7, 0xc19bf174,
   0xe49b69c1, 0xefbe4786, 0x0fc19dc6, 0x240ca1cc, 0x2de92c6f, 0x4a7484aa, 0x5cb0a9dc, 0x76f988da,
   0x983e5152, 0xa831c66d, 0xb00327c8, 0xbf597fc7, 0xc6e00bf3, 0xd5a79147, 0x06ca6351, 0x14292967,
   0x27b70a85, 0x2e1b2138, 0x4d2c6dfc, 0x53380d13, 0x650a7354, 0x766a0abb, 0x81c2c92e, 0x92722c85,
   0xa2bfe8a1, 0xa81a664b, 0xc24b8b70, 0xc76c51a3, 0xd192e819, 0xd6990624, 0xf40e3585, 0x106aa070,
   0x19a4c116, 0x1e376c08, 0x2748774c, 0x34b0bcb5, 0x391c0cb3, 0x4ed8aa4a, 0x5b9cca4f, 0x682e6ff3,
   0x748f82ee, 0x78a5636f, 0x84c87814, 0x8cc70208, 0x90befffa, 0xa4506ceb, 0xbef9a3f7, 0xc67178f2]

/-- One round with its constant and its message word. -/
def round (s : State) (constant word : UInt32) : State :=
  let s1 := rotateRight s.e 6 ^^^ rotateRight s.e 11 ^^^ rotateRight s.e 25
  let choice := (s.e &&& s.f) ^^^ (~~~s.e &&& s.g)
  let t1 := s.h + s1 + choice + constant + word
  let s0 := rotateRight s.a 2 ^^^ rotateRight s.a 13 ^^^ rotateRight s.a 22
  let majority := (s.a &&& s.b) ^^^ (s.a &&& s.c) ^^^ (s.b &&& s.c)
  ⟨t1 + (s0 + majority), s.a, s.b, s.c, s.d + t1, s.e, s.f, s.g⟩

/-- Move the window of sixteen message words on by one word. -/
def slide (window : List UInt32) : List UInt32 :=
  let w1 := window.getD 1 0
  let w14 := window.getD 14 0
  let s0 := rotateRight w1 7 ^^^ rotateRight w1 18 ^^^ (w1 >>> 3)
  let s1 := rotateRight w14 17 ^^^ rotateRight w14 19 ^^^ (w14 >>> 10)
  window.tail ++ [window.getD 0 0 + s0 + window.getD 9 0 + s1]

/-- Run one round for each constant. -/
def rounds : List UInt32 → List UInt32 → State → State
  | [], _, s => s
  | constant :: constants, window, s =>
    rounds constants (slide window) (round s constant (window.getD 0 0))

/-- Mix a block of sixteen words into the chaining words. -/
def compress (s : State) (block : List UInt32) : State :=
  let r := rounds constants block s
  ⟨s.a + r.a, s.b + r.b, s.c + r.c, s.d + r.d, s.e + r.e, s.f + r.f, s.g + r.g, s.h + r.h⟩

/-- The chaining words as a list. -/
def State.toList (s : State) : List UInt32 :=
  [s.a, s.b, s.c, s.d, s.e, s.f, s.g, s.h]

end Sha256

/-- The SHA-256 digest of a message. -/
def sha256 (message : Bytes) : Bytes :=
  wordBytes .big (digestBlocks .big Sha256.compress Sha256.initial message).toList

/-- A SHA-256 digest has 32 bytes. -/
@[simp] theorem length_sha256 (message : Bytes) : (sha256 message).length = 32 := by
  simp [sha256, Sha256.State.toList]

/-- SHA-256 applied twice. -/
def doubleSha256 (message : Bytes) : Bytes :=
  sha256 (sha256 message)

@[simp] theorem length_doubleSha256 (message : Bytes) : (doubleSha256 message).length = 32 := by
  simp [doubleSha256]

end CalendarStamp.Hash
