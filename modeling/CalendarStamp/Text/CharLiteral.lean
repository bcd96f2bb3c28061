import CalendarStamp.Bytes

/-!
# Characters in messages

A message that names an offending byte shows it as a character between single
quotes.  The byte is taken as the character with the same code, so only the
first 256 characters occur.
-/

namespace CalendarStamp.CharLiteral

/-- The lowercase hexadecimal digits of a number, without leading zeros. -/
def hexDigits (n : Nat) : String :=
  String.ofList (Nat.toDigits 16 n)

/-- Whether the character with this code is shown as itself.  The control
characters, the no-break space and the soft hyphen are not. -/
def isPrintable (code : UInt8) : Bool :=
  (0x20 ≤ code && code < 0x7f) || (0xa1 ≤ code && code != 0xad)

/-- What stands between the quotes: a short escape, the character itself, or
its code in hexadecimal between braces. -/
def body (code : UInt8) : String :=
  match Char.ofNat code.toNat with
  | '\x00' => "\\0"
  | '\t' => "\\t"
  | '\n' => "\\n"
  | '\r' => "\\r"
  | '\'' => "\\'"
  | '\\' => "\\\\"
  | c =>
    if isPrintable code then
      String.singleton c
    else
      "\\u\x7b" ++ hexDigits code.toNat ++ "\x7d"

/-- The byte as a quoted character. -/
def quote (code : UInt8) : String :=
  "'" ++ body code ++ "'"

end CalendarStamp.CharLiteral
