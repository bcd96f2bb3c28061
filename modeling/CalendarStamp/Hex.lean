import CalendarStamp.Outcome
import CalendarStamp.Text.CharLiteral
import CalendarStamp.Text.Utf8

/-!
# Hexadecimal text

Digests, nonces and lookup keys are shown to people as hexadecimal text.  Two
digits stand for a byte, the upper half first.  Writing uses lowercase digits;
reading accepts both cases and refuses an odd number of bytes before it looks
for a byte that is no digit.

Main results:

- Theorem `length_encodeDigits`: the text has two digits for each byte.
- Theorem `decodePairs_encodeDigits`: written bytes read back.
-/

namespace CalendarStamp.Hex

open Outcome

/-- Why a text is not the hexadecimal form of any bytes. -/
inductive Error
  /-- The text has an odd number of bytes. -/
  | oddLength
  /-- The byte at this position is not a hexadecimal digit. -/
  | invalidDigit (byte : UInt8) (position : Nat)
deriving DecidableEq

/-- The sentence that reports the error. -/
def Error.message : Error → String
  | .oddLength => "Odd number of digits"
  | .invalidDigit byte position =>
    "Invalid character " ++ CharLiteral.quote byte ++ " at position " ++ toString position

/-! ## Writing -/

/-- The ASCII code of the lowercase digit of a number below sixteen. -/
def digit (n : Nat) : UInt8 :=
  UInt8.ofNat (if n < 10 then 48 + n else 87 + n)

/-- The ASCII codes of the digits of each byte in turn. -/
def encodeDigits (bytes : Bytes) : Bytes :=
  bytes.flatMap fun byte => [digit (byte.toNat / 16), digit (byte.toNat % 16)]

/-- The lowercase hexadecimal text of the bytes. -/
def encode (bytes : Bytes) : String :=
  String.ofList ((encodeDigits bytes).map fun code => Char.ofNat code.toNat)

/-! ## Reading -/

/-- The value of a digit given by its ASCII code, in either case. -/
def digitValue? (code : UInt8) : Option Nat :=
  if 48 ≤ code ∧ code ≤ 57 then some (code.toNat - 48)
  else if 97 ≤ code ∧ code ≤ 102 then some (code.toNat - 87)
  else if 65 ≤ code ∧ code ≤ 70 then some (code.toNat - 55)
  else none

/-- The value of the digit at a position, or the error that names it. -/
def digitAt (position : Nat) (code : UInt8) : Except Error Nat :=
  match digitValue? code with
  | some value => .ok value
  | none => .error (.invalidDigit code position)

/-- Read pairs of digits; `position` counts the bytes before the first pair. -/
def decodePairs (position : Nat) : Bytes → Except Error Bytes
  | [] => .ok []
  | [_] => .error .oddLength
  | upper :: lower :: rest => do
    let high ← digitAt position upper
    let low ← digitAt (position + 1) lower
    let bytes ← decodePairs (position + 2) rest
    return UInt8.ofNat (16 * high + low) :: bytes

/-- The bytes that a hexadecimal text stands for. -/
def decode (text : String) : Except Error Bytes :=
  let digits := Utf8.encode text
  if digits.length % 2 = 0 then decodePairs 0 digits else .error .oddLength

/-! ## Writing and reading together -/

@[simp] theorem encodeDigits_nil : encodeDigits [] = [] := rfl

@[simp] theorem encodeDigits_cons (byte : UInt8) (bytes : Bytes) :
    encodeDigits (byte :: bytes) =
      digit (byte.toNat / 16) :: digit (byte.toNat % 16) :: encodeDigits bytes := rfl

/-- There are two digits for each byte. -/
theorem length_encodeDigits (bytes : Bytes) :
    (encodeDigits bytes).length = 2 * bytes.length := by
  induction bytes with
  | nil => rfl
  | cons byte bytes ih => simp [ih]; omega

/-- A digit that was written is read with its value. -/
theorem digitValue?_digit {n : Nat} (h : n < 16) : digitValue? (digit n) = some n := by
  have : ∀ m : Fin 16, digitValue? (digit m) = some m.val := by decide
  exact this ⟨n, h⟩

/-- Bytes read back from their digits. -/
theorem decodePairs_encodeDigits (position : Nat) (bytes : Bytes) :
    decodePairs position (encodeDigits bytes) = .ok bytes := by
  induction bytes generalizing position with
  | nil => rfl
  | cons byte bytes ih =>
    have hbyte := byte.toNat_lt
    have hhigh : digitValue? (digit (byte.toNat / 16)) = some (byte.toNat / 16) :=
      digitValue?_digit (by omega)
    have hlow : digitValue? (digit (byte.toNat % 16)) = some (byte.toNat % 16) :=
      digitValue?_digit (by omega)
    have hjoin : UInt8.ofNat (16 * (byte.toNat / 16) + byte.toNat % 16) = byte := by
      rw [Nat.div_add_mod]
      exact UInt8.ofNat_toNat
    simp only [encodeDigits_cons, decodePairs, digitAt, hhigh, hlow, ih, ok_bind, pure_eq, hjoin]

end CalendarStamp.Hex
