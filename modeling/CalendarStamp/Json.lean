/-!
# JSON texts

Values as trees, and their two written forms: one line without spaces, and one
item per line with two spaces for each level.  Both forms are written by the
same rules and differ in a layout only.
-/

namespace CalendarStamp

/-- A JSON value.  A number is kept as the text that stands for it. -/
inductive Json
  | null
  | number (literal : String)
  | string (text : String)
  | array (items : List Json)
  | object (members : List (String × Json))

namespace Json

/-- A whole number. -/
def natural (n : Nat) : Json :=
  number (toString n)

/-! ## Strings -/

/-- The lowercase hexadecimal digit of a number below sixteen. -/
def hexDigit (n : Nat) : Char :=
  Char.ofNat (if n < 10 then 48 + n else 87 + n)

/-- What stands for a character inside quotes. -/
def escapeChar (c : Char) : List Char :=
  match c with
  | '"' => ['\\', '"']
  | '\\' => ['\\', '\\']
  | '\x08' => ['\\', 'b']
  | '\x0c' => ['\\', 'f']
  | '\n' => ['\\', 'n']
  | '\r' => ['\\', 'r']
  | '\t' => ['\\', 't']
  | c =>
    if c.toNat < 32 then
      ['\\', 'u', '0', '0', hexDigit (c.toNat / 16), hexDigit (c.toNat % 16)]
    else
      [c]

/-- A text between quotes. -/
def quote (text : String) : List Char :=
  '"' :: (text.toList.flatMap escapeChar ++ ['"'])

/-! ## Layouts -/

/-- What is written between the parts of a value. -/
structure Layout where
  /-- What comes before an item or a closing bracket at a level. -/
  line : Nat → List Char
  /-- What comes between the name of a member and its value. -/
  colon : List Char

namespace Layout

/-- Everything on one line, without spaces. -/
def compact : Layout := ⟨fun _ => [], [':']⟩

/-- One item per line, with two spaces for each level. -/
def pretty : Layout := ⟨fun level => '\n' :: List.replicate (2 * level) ' ', [':', ' ']⟩

end Layout

/-! ## Writing -/

mutual

/-- The text of a value at a level. -/
def write (layout : Layout) (level : Nat) : Json → List Char
  | null => ['n', 'u', 'l', 'l']
  | number literal => literal.toList
  | string text => quote text
  | array [] => ['[', ']']
  | array (item :: items) =>
    '[' :: (layout.line (level + 1) ++ write layout (level + 1) item ++
      writeItems layout level items)
  | object [] => ['{', '}']
  | object ((name, value) :: members) =>
    '{' :: (layout.line (level + 1) ++ quote name ++ layout.colon ++
      write layout (level + 1) value ++ writeMembers layout level members)

/-- The items of an array at a level after the first, and the end of the array. -/
def writeItems (layout : Layout) (level : Nat) : List Json → List Char
  | [] => layout.line level ++ [']']
  | item :: items =>
    ',' :: (layout.line (level + 1) ++ write layout (level + 1) item ++
      writeItems layout level items)

/-- The members of an object at a level after the first, and the end of the object. -/
def writeMembers (layout : Layout) (level : Nat) : List (String × Json) → List Char
  | [] => layout.line level ++ ['}']
  | (name, value) :: members =>
    ',' :: (layout.line (level + 1) ++ quote name ++ layout.colon ++
      write layout (level + 1) value ++ writeMembers layout level members)

end

/-- The text of a value on one line. -/
def compact (value : Json) : String :=
  String.ofList (value.write .compact 0)

/-- The text of a value with one item per line. -/
def pretty (value : Json) : String :=
  String.ofList (value.write .pretty 0)

end Json

end CalendarStamp
