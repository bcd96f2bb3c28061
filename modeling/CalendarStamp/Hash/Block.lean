import CalendarStamp.Bytes

/-!
# Messages as blocks of words

The three hash functions of attestation chains work alike: a message is padded
to whole blocks of 64 bytes, each block is read as sixteen 32-bit words, and a
chaining state is compressed with one block after the other.  They differ in
the byte order of words and in the compression, so the shared half stands here.

Main results:

- Theorem `length_paddedBy`: padding fills the last block exactly.
-/

namespace CalendarStamp.Hash

/-! ## Words -/

/-- Rotate a word to the left. -/
def rotateLeft (word : UInt32) (count : UInt32) : UInt32 :=
  (word <<< count) ||| (word >>> (32 - count))

/-- Rotate a word to the right. -/
def rotateRight (word : UInt32) (count : UInt32) : UInt32 :=
  (word >>> count) ||| (word <<< (32 - count))

/-- The order in which the four bytes of a word stand in a message. -/
inductive ByteOrder
  | big
  | little

/-- The digits of a number of the given width, in a byte order. -/
def ByteOrder.write : ByteOrder → Nat → Nat → Bytes
  | .big => Bytes.bigEndian
  | .little => Bytes.littleEndian

/-- The number with the given digits, in a byte order. -/
def ByteOrder.read : ByteOrder → Bytes → Nat
  | .big => Bytes.ofBigEndian
  | .little => Bytes.ofLittleEndian

@[simp] theorem ByteOrder.length_write (order : ByteOrder) (width n : Nat) :
    (order.write width n).length = width := by
  cases order <;> simp [ByteOrder.write]

/-- The words of a block; bytes short of a whole word are left out. -/
def words (order : ByteOrder) : Bytes → List UInt32
  | a :: b :: c :: d :: rest => UInt32.ofNat (order.read [a, b, c, d]) :: words order rest
  | _ => []

/-- The bytes of a list of words. -/
def wordBytes (order : ByteOrder) (list : List UInt32) : Bytes :=
  list.flatMap fun word => order.write 4 word.toNat

@[simp] theorem length_wordBytes (order : ByteOrder) (list : List UInt32) :
    (wordBytes order list).length = 4 * list.length := by
  induction list with
  | nil => rfl
  | cons word list ih =>
    simp only [wordBytes, List.flatMap_cons, List.length_append, ByteOrder.length_write,
      List.length_cons] at ih ⊢
    omega

/-! ## Padding -/

/-- The number of zero bytes between the end mark and the length. -/
def zeroCount (length : Nat) : Nat :=
  (119 - length % 64) % 64

/-- A message followed by an end mark, zeros, and its length in bits. -/
def paddedBy (order : ByteOrder) (message : Bytes) : Bytes :=
  message ++ 0x80 :: List.replicate (zeroCount message.length) 0 ++
    order.write 8 (8 * message.length)

/-- A padded message is a whole number of blocks. -/
theorem length_paddedBy (order : ByteOrder) (message : Bytes) :
    (paddedBy order message).length % 64 = 0 := by
  simp [paddedBy, zeroCount]
  omega

/-- Split bytes into blocks of 64. -/
def blocks (bytes : Bytes) : List Bytes :=
  match bytes with
  | [] => []
  | byte :: rest => (byte :: rest.take 63) :: blocks (rest.drop 63)
termination_by bytes.length
decreasing_by
  simp only [List.length_drop, List.length_cons]
  omega

/-- Run a compression over the padded message, block by block. -/
def digestBlocks {State : Type} (order : ByteOrder) (compress : State → List UInt32 → State)
    (initial : State) (message : Bytes) : State :=
  (blocks (paddedBy order message)).foldl
    (fun state block => compress state (words order block)) initial

end CalendarStamp.Hash
