import CalendarStamp.Hash.Block

/-!
# RIPEMD-160

The third hash function of attestation chains.  Each block is processed by two
independent lines of eighty rounds, which differ in the order of the message
words, the rotations, the constants and the order of the mixing functions.
The results of the lines are added crosswise to the chaining words.

Main results:

- Theorem `length_ripemd160`: a digest has 20 bytes.
-/

namespace CalendarStamp.Hash

namespace Ripemd160

/-- The five chaining words. -/
structure State where
  a : UInt32
  b : UInt32
  c : UInt32
  d : UInt32
  e : UInt32

/-- The chaining words before the first block. -/
def initial : State :=
  ⟨0x67452301, 0xefcdab89, 0x98badcfe, 0x10325476, 0xc3d2e1f0⟩

/-- The five mixing functions, numbered in the order of the left line. -/
def mix : Nat → UInt32 → UInt32 → UInt32 → UInt32
  | 0, x, y, z => x ^^^ y ^^^ z
  | 1, x, y, z => (x &&& y) ||| (~~~x &&& z)
  | 2, x, y, z => (x ||| ~~~y) ^^^ z
  | 3, x, y, z => (x &&& z) ||| (y &&& ~~~z)
  | _, x, y, z => x ^^^ (y ||| ~~~z)

/-- What a group of sixteen rounds of a line uses. -/
structure Group where
  /-- The number of the mixing function. -/
  mixer : Nat
  /-- The constant added in each round. -/
  constant : UInt32
  /-- The message word of each round. -/
  order : List Nat
  /-- The rotation of each round. -/
  rotations : List UInt32

/-- The groups of the left line. -/
def leftLine : List Group :=
  [⟨0, 0x00000000,
    [0, 1, 2, 3, 4, 5, 6, 7, 8, 9, 10, 11, 12, 13, 14, 15],
    [11, 14, 15, 12, 5, 8, 7, 9, 11, 13, 14, 15, 6, 7, 9, 8]⟩,
   ⟨1, 0x5a827999,
    [7, 4, 13, 1, 10, 6, 15, 3, 12, 0, 9, 5, 2, 14, 11, 8],
    [7, 6, 8, 13, 11, 9, 7, 15, 7, 12, 15, 9, 11, 7, 13, 12]⟩,
   ⟨2, 0x6ed9eba1,
    [3, 10, 14, 4, 9, 15, 8, 1, 2, 7, 0, 6, 13, 11, 5, 12],
    [11, 13, 6, 7, 14, 9, 13, 15, 14, 8, 13, 6, 5, 12, 7, 5]⟩,
   ⟨3, 0x8f1bbcdc,
    [1, 9, 11, 10, 0, 8, 12, 4, 13, 3, 7, 15, 14, 5, 6, 2],
    [11, 12, 14, 15, 14, 15, 9, 8, 9, 14, 5, 6, 8, 6, 5, 12]⟩,
   ⟨4, 0xa953fd4e,
    [4, 0, 5, 9, 7, 12, 2, 10, 14, 1, 3, 8, 11, 6, 15, 13],
    [9, 15, 5, 11, 6, 8, 13, 12, 5, 12, 13, 14, 11, 8, 5, 6]⟩]

/-- The groups of the right line. -/
def rightLine : List Group :=
  [⟨4, 0x50a28be6,
    [5, 14, 7, 0, 9, 2, 11, 4, 13, 6, 15, 8, 1, 10, 3, 12],
    [8, 9, 9, 11, 13, 15, 15, 5, 7, 7, 8, 11, 14, 14, 12, 6]⟩,
   ⟨3, 0x5c4dd124,
    [6, 11, 3, 7, 0, 13, 5, 10, 14, 15, 8, 12, 4, 9, 1, 2],
    [9, 13, 15, 7, 12, 8, 9, 11, 7, 7, 12, 7, 6, 15, 13, 11]⟩,
   ⟨2, 0x6d703ef3,
    [15, 5, 1, 3, 7, 14, 6, 9, 11, 8, 12, 2, 10, 0, 4, 13],
    [9, 7, 15, 11, 8, 6, 6, 14, 12, 13, 5, 14, 13, 13, 7, 5]⟩,
   ⟨1, 0x7a6d76e9,
    [8, 6, 4, 1, 3, 11, 15, 0, 5, 12, 2, 13, 9, 7, 10, 14],
    [15, 5, 8, 11, 14, 14, 6, 14, 6, 9, 12, 9, 12, 5, 15, 8]⟩,
   ⟨0, 0x00000000,
    [12, 15, 10, 4, 1, 5, 8, 7, 6, 2, 13, 14, 0, 3, 9, 11],
    [8, 5, 12, 9, 12, 5, 14, 6, 8, 13, 6, 5, 15, 13, 11, 11]⟩]

/-- One round: the message word and the rotation come with it. -/
def round (mixer : Nat) (constant : UInt32) (s : State) (word rotation : UInt32) : State :=
  let t := rotateLeft (s.a + mix mixer s.b s.c s.d + word + constant) rotation + s.e
  ⟨s.e, t, s.b, rotateLeft s.c 10, s.d⟩

/-- Run the sixteen rounds of a group. -/
def runGroup (block : List UInt32) (s : State) (group : Group) : State :=
  (group.order.zip group.rotations).foldl
    (fun s step => round group.mixer group.constant s (block.getD step.1 0) step.2) s

/-- Mix a block of sixteen words into the chaining words. -/
def compress (s : State) (block : List UInt32) : State :=
  let l := leftLine.foldl (runGroup block) s
  let r := rightLine.foldl (runGroup block) s
  ⟨s.b + l.c + r.d, s.c + l.d + r.e, s.d + l.e + r.a, s.e + l.a + r.b, s.a + l.b + r.c⟩

/-- The chaining words as a list. -/
def State.toList (s : State) : List UInt32 :=
  [s.a, s.b, s.c, s.d, s.e]

end Ripemd160

/-- The RIPEMD-160 digest of a message. -/
def ripemd160 (message : Bytes) : Bytes :=
  wordBytes .little (digestBlocks .little Ripemd160.compress Ripemd160.initial message).toList

/-- A RIPEMD-160 digest has 20 bytes. -/
@[simp] theorem length_ripemd160 (message : Bytes) : (ripemd160 message).length = 20 := by
  simp [ripemd160, Ripemd160.State.toList]

end CalendarStamp.Hash
