import CalendarStamp.Hash.Block

/-!
# SHA-1

Old calendars may still use SHA-1 in their chains.  A block is expanded to
eighty words by a sliding window of sixteen; the rounds come in four groups of
twenty with a mixing function and a constant each.

Main results:

- Theorem `length_sha1`: a digest has 20 bytes.
-/

namespace CalendarStamp.Hash

namespace Sha1

/-- The five chaining words. -/
structure State where
  a : UInt32
  b : UInt32
  c : UInt32
  d : UInt32
  e : UInt32

/-- The chaining words before the first block. -/
def initial : State :=
  ⟨0x67452301, 0xefcdab89, 0x98badcfe, 0x10325476, 0xc3d2e1f0⟩

/-- The mixing function of a round. -/
inductive Mixer
  | choice
  | parity
  | majority

/-- The value of a mixing function at three words. -/
def Mixer.apply : Mixer → UInt32 → UInt32 → UInt32 → UInt32
  | .choice, b, c, d => (b &&& c) ||| (~~~b &&& d)
  | .parity, b, c, d => b ^^^ c ^^^ d
  | .majority, b, c, d => (b &&& c) ||| (b &&& d) ||| (c &&& d)

/-- The mixing function and the constant of each of the eighty rounds. -/
def schedule : List (Mixer × UInt32) :=
  List.replicate 20 (.choice, 0x5a827999) ++ List.replicate 20 (.parity, 0x6ed9eba1) ++
    List.replicate 20 (.majority, 0x8f1bbcdc) ++ List.replicate 20 (.parity, 0xca62c1d6)

/-- One round with its mixing function, its constant and its message word. -/
def round (s : State) (mixer : Mixer) (constant word : UInt32) : State :=
  ⟨rotateLeft s.a 5 + mixer.apply s.b s.c s.d + s.e + constant + word,
    s.a, rotateLeft s.b 30, s.c, s.d⟩

/-- Move the window of sixteen message words on by one word. -/
def slide (window : List UInt32) : List UInt32 :=
  let mixed := window.getD 13 0 ^^^ window.getD 8 0 ^^^ window.getD 2 0 ^^^ window.getD 0 0
  window.tail ++ [rotateLeft mixed 1]

/-- Run one round for each entry of the schedule. -/
def rounds : List (Mixer × UInt32) → List UInt32 → State → State
  | [], _, s => s
  | (mixer, constant) :: schedule, window, s =>
    rounds schedule (slide window) (round s mixer constant (window.getD 0 0))

/-- Mix a block of sixteen words into the chaining words. -/
def compress (s : State) (block : List UInt32) : State :=
  let r := rounds schedule block s
  ⟨s.a + r.a, s.b + r.b, s.c + r.c, s.d + r.d, s.e + r.e⟩

/-- The chaining words as a list. -/
def State.toList (s : State) : List UInt32 :=
  [s.a, s.b, s.c, s.d, s.e]

end Sha1

/-- The SHA-1 digest of a message. -/
def sha1 (message : Bytes) : Bytes :=
  wordBytes .big (digestBlocks .big Sha1.compress Sha1.initial message).toList

/-- A SHA-1 digest has 20 bytes. -/
@[simp] theorem length_sha1 (message : Bytes) : (sha1 message).length = 20 := by
  simp [sha1, Sha1.State.toList]

end CalendarStamp.Hash
