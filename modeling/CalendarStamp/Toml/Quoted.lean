/-!
# Quoted texts in TOML

A text stands between quotes in one of four forms.  Between double quotes a
backslash starts an escape; between single quotes every character stands for
itself.  Either form may use three quotes in a row, and then the text may run
over several lines; a line break right after the opening quotes is not part of
the text.

When a text is written, the plainest form that can hold it is used: double
quotes if nothing needs an escape, single quotes if they hold the text as it
is, then the same two with three quotes.  A text that fits none of them is
written with escapes.
-/

namespace CalendarStamp.Toml

/-! ## Characters -/

/-- Blanks within a line. -/
def isSpace (c : Char) : Bool :=
  c = ' ' || c = '\t'

/-- Characters that may not stand for themselves in any text. -/
def isControl (c : Char) : Bool :=
  (c.toNat < 32 && c ≠ '\t') || c.toNat = 127

/-- The value of a hexadecimal digit in either case. -/
def hexValue? (c : Char) : Option Nat :=
  if '0' ≤ c ∧ c ≤ '9' then some (c.toNat - 48)
  else if 'a' ≤ c ∧ c ≤ 'f' then some (c.toNat - 87)
  else if 'A' ≤ c ∧ c ≤ 'F' then some (c.toNat - 55)
  else none

/-- The character whose code is given by hexadecimal digits, if there is one. -/
def charOfHex? (digits : List Char) : Option Char := do
  let values ← digits.mapM hexValue?
  let code := values.foldl (fun code value => 16 * code + value) 0
  if code.isValidChar then some (Char.ofNat code) else none

/-- The character that a one-letter escape stands for. -/
def escaped? (c : Char) : Option Char :=
  match c with
  | 'b' => some '\x08'
  | 't' => some '\t'
  | 'n' => some '\n'
  | 'f' => some '\x0c'
  | 'r' => some '\r'
  | '"' => some '"'
  | '\\' => some '\\'
  | _ => none

/-! ## Reading -/

/-- Put a character in front of a text that was read. -/
def consText (c : Char) (result : List Char × List Char) : List Char × List Char :=
  (c :: result.1, result.2)

/-- Read up to the closing double quote. -/
def readBasic : List Char → Option (List Char × List Char)
  | [] => none
  | '"' :: rest => some ([], rest)
  | '\\' :: 'u' :: a :: b :: c :: d :: rest => do
    let code ← charOfHex? [a, b, c, d]
    consText code <$> readBasic rest
  | '\\' :: 'U' :: a :: b :: c :: d :: e :: f :: g :: h :: rest => do
    let code ← charOfHex? [a, b, c, d, e, f, g, h]
    consText code <$> readBasic rest
  | '\\' :: c :: rest => do
    let code ← escaped? c
    consText code <$> readBasic rest
  | c :: rest => if isControl c || c = '\\' then none else consText c <$> readBasic rest

/-- Read up to the closing single quote. -/
def readLiteral : List Char → Option (List Char × List Char)
  | [] => none
  | '\'' :: rest => some ([], rest)
  | c :: rest => if isControl c then none else consText c <$> readLiteral rest

/-- If the text starts with at least three quotes, the quotes that belong to
the content (two at most) and what follows the closing quotes. -/
def closing? (quote : Char) (text : List Char) : Option (List Char × List Char) :=
  let run := (text.takeWhile (· = quote)).length
  if run < 3 then
    none
  else
    let extra := min (run - 3) 2
    some (List.replicate extra quote, text.drop (extra + 3))

/-- What follows a line break at the start of a text, if there is one. -/
def lineBreak? : List Char → Option (List Char)
  | '\n' :: rest => some rest
  | '\r' :: '\n' :: rest => some rest
  | _ => none

/-- Whether only blanks stand between here and the end of the line. -/
def endsLine (text : List Char) : Bool :=
  (lineBreak? (text.dropWhile isSpace)).isSome

/-- Read up to three closing double quotes.  While `skipping` holds, blanks and
line breaks are passed over, as they are after a backslash at a line's end. -/
def readMultilineBasic (skipping : Bool) : List Char → Option (List Char × List Char)
  | [] => none
  | '\\' :: 'u' :: a :: b :: c :: d :: rest => do
    let code ← charOfHex? [a, b, c, d]
    consText code <$> readMultilineBasic false rest
  | '\\' :: 'U' :: a :: b :: c :: d :: e :: f :: g :: h :: rest => do
    let code ← charOfHex? [a, b, c, d, e, f, g, h]
    consText code <$> readMultilineBasic false rest
  | '\\' :: c :: rest =>
    if endsLine (c :: rest) then
      readMultilineBasic true (c :: rest)
    else do
      let code ← escaped? c
      consText code <$> readMultilineBasic false rest
  | '\r' :: '\n' :: rest =>
    if skipping then readMultilineBasic true rest
    else consText '\n' <$> readMultilineBasic false rest
  | c :: rest =>
    if skipping && (isSpace c || c = '\n') then
      readMultilineBasic true rest
    else
      match closing? '"' (c :: rest) with
      | some result => some result
      | none =>
        if (isControl c && c ≠ '\n') || c = '\\' then none
        else consText c <$> readMultilineBasic false rest

/-- Read up to three closing single quotes. -/
def readMultilineLiteral : List Char → Option (List Char × List Char)
  | [] => none
  | '\r' :: '\n' :: rest => consText '\n' <$> readMultilineLiteral rest
  | c :: rest =>
    match closing? '\'' (c :: rest) with
    | some result => some result
    | none =>
      if isControl c && c ≠ '\n' then none else consText c <$> readMultilineLiteral rest

/-- Read a text within a line, starting at its opening quote. -/
def readLineText : List Char → Option (List Char × List Char)
  | '"' :: rest => readBasic rest
  | '\'' :: rest => readLiteral rest
  | _ => none

/-- Read a text in any form, starting at its opening quotes. -/
def readText : List Char → Option (List Char × List Char)
  | '"' :: '"' :: '"' :: rest => readMultilineBasic false ((lineBreak? rest).getD rest)
  | '\'' :: '\'' :: '\'' :: rest => readMultilineLiteral ((lineBreak? rest).getD rest)
  | text => readLineText text

/-! ## Writing -/

/-- The forms of a quoted text. -/
inductive Form
  | basic
  | literal
  | multilineBasic
  | multilineLiteral
deriving DecidableEq

/-- The length of the longest run of a character. -/
def longestRun (target : Char) (current longest : Nat) : List Char → Nat
  | [] => longest
  | c :: rest =>
    if c = target then
      longestRun target (current + 1) (max longest (current + 1)) rest
    else
      longestRun target 0 longest rest

/-- Whether a text holds control characters other than tabs and line breaks. -/
def hasControl (text : List Char) : Bool :=
  text.any fun c => isControl c && c ≠ '\n'

/-- The form in which a text is written. -/
def formOf (text : List Char) : Form :=
  let doubles := longestRun '"' 0 0 text
  let singles := longestRun '\'' 0 0 text
  let hasBreak := text.contains '\n'
  let hasSlash := text.contains '\\'
  if hasControl text then
    if hasBreak then .multilineBasic else .basic
  else if !hasSlash && doubles = 0 && !hasBreak then .basic
  else if singles = 0 && !hasBreak then .literal
  else if !hasSlash && doubles ≤ 2 then .multilineBasic
  else if singles ≤ 2 then .multilineLiteral
  else if hasBreak then .multilineBasic
  else .basic

/-- The uppercase hexadecimal digits of a number, four at least. -/
def hexQuad (n : Nat) : List Char :=
  let digits := (Nat.toDigits 16 n).map Char.toUpper
  List.replicate (4 - digits.length) '0' ++ digits

/-- What stands for a character between double quotes, apart from a double
quote and a line break. -/
def escapeChar (c : Char) : List Char :=
  match c with
  | '\x08' => ['\\', 'b']
  | '\t' => ['\\', 't']
  | '\x0c' => ['\\', 'f']
  | '\r' => ['\\', 'r']
  | '\\' => ['\\', '\\']
  | c => if isControl c then '\\' :: 'u' :: hexQuad c.toNat else [c]

/-- The content of a text between double quotes.  `run` counts the double
quotes just before; up to `allowed` of them in a row stand for themselves. -/
def escapeText (multiline : Bool) (allowed run : Nat) : List Char → List Char
  | [] => []
  | c :: rest =>
    if c = '"' then
      if run < allowed then
        '"' :: escapeText multiline allowed (run + 1) rest
      else
        '\\' :: '"' :: escapeText multiline allowed 0 rest
    else if c = '\n' then
      (if multiline then ['\n'] else ['\\', 'n']) ++ escapeText multiline allowed 0 rest
    else
      escapeChar c ++ escapeText multiline allowed 0 rest

/-- A text in quotes, in the given form.  Three quotes are followed by a line
break when the text has one. -/
def writeAs (form : Form) (text : List Char) : List Char :=
  let opening := if text.contains '\n' then ['\n'] else []
  match form with
  | .basic => '"' :: (escapeText false 0 0 text ++ ['"'])
  | .literal => '\'' :: (text ++ ['\''])
  | .multilineBasic =>
    ['"', '"', '"'] ++ opening ++ escapeText true 2 0 text ++ ['"', '"', '"']
  | .multilineLiteral => ['\'', '\'', '\''] ++ opening ++ text ++ ['\'', '\'', '\'']

/-- A text in quotes. -/
def writeText (text : List Char) : List Char :=
  writeAs (formOf text) text

end CalendarStamp.Toml
