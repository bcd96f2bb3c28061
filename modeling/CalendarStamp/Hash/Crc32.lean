import CalendarStamp.Bytes

/-!
# The CRC-32 check sum

The check sum of the files of a store: the remainder of a division of
polynomials over two elements, with the lowest bit of every byte first.

Main results:

- Theorem `crcState_append`: a message may be taken in pieces.
-/

namespace CalendarStamp.Hash

/-- The divisor, without its highest term and with the lowest bit first. -/
def crcPolynomial : UInt32 := 0xEDB88320

/-- Divide by one more bit. -/
def crcBit (state : UInt32) : UInt32 :=
  if state &&& 1 = 1 then (state >>> 1) ^^^ crcPolynomial else state >>> 1

/-- Take one byte into the state: its bits, one after the other. -/
def crcByte (state : UInt32) (byte : UInt8) : UInt32 :=
  (List.range 8).foldl (fun state _ => crcBit state) (state ^^^ byte.toUInt32)

/-- The state after a message. -/
def crcState (state : UInt32) (message : Bytes) : UInt32 :=
  message.foldl crcByte state

/-- A message may be taken in pieces. -/
@[simp] theorem crcState_append (state : UInt32) (first second : Bytes) :
    crcState state (first ++ second) = crcState (crcState state first) second := by
  simp [crcState]

/-- The check sum of a message. -/
def crc32 (message : Bytes) : UInt32 :=
  crcState 0xFFFFFFFF message ^^^ 0xFFFFFFFF

/-- The check sum of the nine digits, by which the code is known. -/
example : crc32 [0x31, 0x32, 0x33, 0x34, 0x35, 0x36, 0x37, 0x38, 0x39] = 0xCBF43926 := by
  decide +kernel

end CalendarStamp.Hash
