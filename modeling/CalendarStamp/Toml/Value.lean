import CalendarStamp.Decimal.Range
import CalendarStamp.Instant
import CalendarStamp.Text.Blank
import CalendarStamp.Toml.Quoted
import CalendarStamp.Toml.Table

/-!
# TOML values

A value is a text, a number, a truth value, a date or time, or several values: in an
array, which may run over several lines with comments in between, or in a table
within the line.  Settings are texts, whole numbers and arrays, but the others are
read too, since a document may give them to names that are passed over.
-/

namespace CalendarStamp.Toml

/-! ## Numbers -/

/-- The value of digits in a base.  Single underscores may stand between digits. -/
def digits? (base : Nat) (text : List Char) : Option Nat := do
  let groups := Text.split '_' text
  if groups.any List.isEmpty then
    none
  else
    let values ← groups.flatten.mapM fun c => (hexValue? c).filter (· < base)
    return values.foldl (fun n value => base * n + value) 0

/-- The value of decimal digits without a redundant zero in front. -/
def decimal? (text : List Char) : Option Nat :=
  if text.head? = some '0' && text.length ≠ 1 then none else digits? 10 text

/-- A text split into an optional minus or plus sign and the rest. -/
def signed (text : List Char) : Bool × List Char :=
  match text with
  | '-' :: rest => (true, rest)
  | '+' :: rest => (false, rest)
  | _ => (false, text)

/-- A number with its sign. -/
def withSign (negative : Bool) (n : Nat) : Int :=
  if negative then -Int.ofNat n else Int.ofNat n

/-- Whole numbers stay below this bound, and not below its opposite. -/
def integerLimit : Nat := 1 <<< 63

/-- The whole number that a word stands for. -/
def integer? (word : List Char) : Option Int := do
  let value ←
    match word with
    | '0' :: 'x' :: rest => Int.ofNat <$> digits? 16 rest
    | '0' :: 'o' :: rest => Int.ofNat <$> digits? 8 rest
    | '0' :: 'b' :: rest => Int.ofNat <$> digits? 2 rest
    | _ =>
      let (negative, rest) := signed word
      withSign negative <$> decimal? rest
  if -(integerLimit : Int) ≤ value ∧ value < integerLimit then some value else none

/-- The digits of a floating-point number. -/
structure Mantissa where
  /-- All digits, read as one number. -/
  digits : Nat
  /-- How many digits there are. -/
  width : Nat
  /-- How many of them stand behind the point. -/
  places : Nat

/-- How many digits a text has beside its underscores. -/
def digitCount (text : List Char) : Nat :=
  text.countP (· ≠ '_')

/-- The mantissa that a whole part makes, with a fraction or without. -/
def mantissa? (text : List Char) : Option Mantissa :=
  match Text.split '.' text with
  | [whole] => do
    let digits ← decimal? whole
    return { digits, width := digitCount whole, places := 0 }
  | [whole, fraction] => do
    let places := digitCount fraction
    let digits := (← decimal? whole) * Nat.pow 10 places + (← digits? 10 fraction)
    return { digits, width := digitCount whole + places, places }
  | _ => none

/-- The power of ten behind a mantissa. -/
def power? (text : List Char) : Option Int :=
  let (negative, rest) := signed text
  withSign negative <$> digits? 10 rest

/-- The mantissa and the power of ten of a floating-point number without its
sign: it has a fraction, a power of ten or both. -/
def scientific? (text : List Char) : Option (Mantissa × Int) := do
  match Text.split 'e' (text.map fun c => if c = 'E' then 'e' else c) with
  | [word] =>
    let mantissa ← mantissa? word
    if mantissa.places = 0 then none else return (mantissa, 0)
  | [word, power] => return (← mantissa? word, ← power? power)
  | _ => none

/-- Whether a word is a floating-point number.  Infinity may be written as a
word, but a positive number must not be so great that it stands for infinity.
A negative one may. -/
def isFloat (word : List Char) : Bool :=
  let (negative, rest) := signed word
  rest = ['i', 'n', 'f'] || rest = ['n', 'a', 'n'] ||
    match scientific? rest with
    | some (mantissa, power) =>
      negative ||
        !Decimal.isBeyondDoubles mantissa.width mantissa.digits (power - mantissa.places)
    | none => false

/-! ## Dates and times -/

/-- Read so many decimal digits. -/
def readDigits (count : Nat) (text : List Char) : Option (Nat × List Char) :=
  let digits := text.take count
  if digits.length = count ∧ digits.all Char.isDigit then
    some (Nat.ofDigitChars 10 digits 0, text.drop count)
  else
    none

/-- What follows a character that a text begins with. -/
def after? (c : Char) : List Char → Option (List Char)
  | [] => none
  | first :: rest => if first = c then some rest else none

/-- What follows the date that a text begins with. -/
def afterDate? (text : List Char) : Option (List Char) := do
  let (year, rest) ← readDigits 4 text
  let (month, rest) ← readDigits 2 (← after? '-' rest)
  let (day, rest) ← readDigits 2 (← after? '-' rest)
  let length := if month = 0 then 0 else ((Instant.monthLengths year)[month - 1]?).getD 0
  if 1 ≤ day ∧ day ≤ length then some rest else none

/-- What follows the hour and the minute that a text begins with. -/
def afterMinute? (text : List Char) : Option (List Char) := do
  let (hour, rest) ← readDigits 2 text
  let (minute, rest) ← readDigits 2 (← after? ':' rest)
  if hour < 24 ∧ minute < 60 then some rest else none

/-- What follows the fraction of a second that a text begins with, if any. -/
def afterFraction (text : List Char) : List Char :=
  match text with
  | '.' :: c :: rest => if c.isDigit then rest.dropWhile Char.isDigit else text
  | _ => text

/-- What follows the time that a text begins with.  A leap second may be named. -/
def afterTime? (text : List Char) : Option (List Char) := do
  let (second, rest) ← readDigits 2 (← after? ':' (← afterMinute? text))
  if second ≤ 60 then some (afterFraction rest) else none

/-- Whether a text is a distance from universal time. -/
def isOffset : List Char → Bool
  | ['Z'] => true
  | ['z'] => true
  | '+' :: rest => afterMinute? rest = some []
  | '-' :: rest => afterMinute? rest = some []
  | _ => false

/-- Whether a text is a time behind a date. -/
def isTimeOfDate (text : List Char) : Bool :=
  match afterTime? text with
  | some rest => rest = [] || isOffset rest
  | none => false

/-- Whether a word is a date, a time or both. -/
def isDateTime (word : List Char) : Bool :=
  match afterDate? word with
  | some [] => true
  | some ('T' :: rest) => isTimeOfDate rest
  | some ('t' :: rest) => isTimeOfDate rest
  | some _ => false
  | none => afterTime? word = some []

/-! ## Words -/

/-- The characters of numbers and truth values. -/
def isWordChar (c : Char) : Bool :=
  c.isAlphanum || c = '_' || c = '+' || c = '-' || c = '.' || c = ':'

/-- Split off the word that a text begins with.  Between a date and a time a blank
may take the place of the letter. -/
def splitWord (text : List Char) : List Char × List Char :=
  let word := text.takeWhile isWordChar
  let rest := text.dropWhile isWordChar
  match rest with
  | ' ' :: more =>
    if afterDate? word = some [] ∧ (readDigits 2 more >>= (after? ':' ·.2)).isSome then
      (word ++ 'T' :: more.takeWhile isWordChar, more.dropWhile isWordChar)
    else
      (word, rest)
  | _ => (word, rest)

/-- The value that a word stands for. -/
def word? (word : List Char) : Option Value :=
  if word = ['t', 'r', 'u', 'e'] then some (.boolean true)
  else if word = ['f', 'a', 'l', 's', 'e'] then some (.boolean false)
  else if isDateTime word then some .dateTime
  else if isFloat word then some .float
  else Value.integer <$> integer? word

/-! ## Comments and line breaks -/

/-- Skip blanks, line breaks and comments.  `inComment` says whether a comment
has been entered. -/
def skipLines (inComment : Bool) : List Char → Option (List Char)
  | [] => some []
  | '\n' :: rest => skipLines false rest
  | '\r' :: '\n' :: rest => skipLines false rest
  | c :: rest =>
    if inComment then
      if isControl c then none else skipLines true rest
    else if isSpace c then
      skipLines false rest
    else if c = '#' then
      skipLines true rest
    else
      some (c :: rest)

/-! ## Keys -/

/-- Arrays and tables may nest to this depth, and keys may lead to it. -/
def maxDepth : Nat := 79

/-- The characters of a name without quotes. -/
def isNameChar (c : Char) : Bool :=
  c.isAlphanum || c = '_' || c = '-'

/-- Read one name of a key. -/
def readName (text : List Char) : Option (String × List Char) :=
  if text.head? = some '"' || text.head? = some '\'' then do
    let (content, rest) ← readLineText text
    return (String.ofList content, rest)
  else
    let name := text.takeWhile isNameChar
    if name = [] then none else some (String.ofList name, text.dropWhile isNameChar)

/-- Read the names of a key with the blanks around them. -/
def readPath (text : List Char) : Option (Path × List Char) := do
  let (name, rest) ← readName (text.dropWhile isSpace)
  match rest.dropWhile isSpace with
  | '.' :: rest =>
    if _h : rest.length < text.length then
      let (path, rest) ← readPath rest
      return (name :: path, rest)
    else
      none
  | rest => return ([name], rest)
termination_by text.length

/-- Read a key.  It must not lead too deep. -/
def readKey (text : List Char) : Option (Path × List Char) :=
  (readPath text).filter fun (path, _) => path.length ≤ maxDepth

/-! ## Values -/

/-- Read the items of an array up to its closing bracket. -/
def readItems (readItem : List Char → Option (Value × List Char)) (text : List Char) :
    Option (List Value × List Char) := do
  match ← skipLines false text with
  | ']' :: rest => return ([], rest)
  | start =>
    let (item, rest) ← readItem start
    match ← skipLines false rest with
    | ']' :: rest => return ([item], rest)
    | ',' :: rest =>
      if _h : rest.length < text.length then
        let (items, rest) ← readItems readItem rest
        return (item :: items, rest)
      else
        none
    | _ => none
termination_by text.length

/-- Read a key and its value, with the blanks around them. -/
def readPair (readItem : List Char → Option (Value × List Char)) (text : List Char) :
    Option ((Path × Value) × List Char) := do
  let (path, rest) ← readKey text
  let (value, rest) ← readItem ((← after? '=' rest).dropWhile isSpace)
  return ((path, value), rest.dropWhile isSpace)

/-- Read the pairs of a table within a line up to its closing brace.  Behind a comma
there is always another pair. -/
def readPairs (readItem : List Char → Option (Value × List Char)) (text : List Char) :
    Option (List (Path × Value) × List Char) := do
  let (pair, rest) ← readPair readItem text
  match rest with
  | '\x7d' :: rest => return ([pair], rest)
  | ',' :: rest =>
    if _h : rest.length < text.length then
      let (pairs, rest) ← readPairs readItem rest
      return (pair :: pairs, rest)
    else
      none
  | _ => none
termination_by text.length

/-- Read a table within a line behind its opening brace.  No name is given twice. -/
def readTable (readItem : List Char → Option (Value × List Char)) (text : List Char) :
    Option (List Char) :=
  match text.dropWhile isSpace with
  | '\x7d' :: rest => some rest
  | _ => do
    let (pairs, rest) ← readPairs readItem text
    let _ ← pairs.foldlM (fun table (path, value) => assign value path table) []
    return rest

/-- Read a text in quotes or a word. -/
def readPlain (text : List Char) : Option (Value × List Char) :=
  if text.head? = some '"' || text.head? = some '\'' then do
    let (content, rest) ← readText text
    return (.text (String.ofList content), rest)
  else do
    let (word, rest) := splitWord text
    return (← word? word, rest)

/-- Read a value.  Arrays and tables may nest to a depth of `depth`; below it no value
is left for a bracket or a brace, since neither begins a word. -/
def readValue : Nat → List Char → Option (Value × List Char)
  | 0, text => readPlain text
  | depth + 1, text =>
    match text with
    | '[' :: rest => do
      let (items, rest) ← readItems (readValue depth) rest
      return (.array items, rest)
    | '\x7b' :: rest => do
      let rest ← readTable (readValue depth) rest
      return (.table, rest)
    | _ => readPlain text

/-- An array that begins with a bracket has the items that are read behind it. -/
theorem readValue_of_readItems {depth : Nat} {rest tail : List Char} {items : List Value}
    (h : readItems (readValue depth) rest = some (items, tail)) :
    readValue (depth + 1) ('[' :: rest) = some (.array items, tail) := by
  change (readItems (readValue depth) rest >>= _) = _
  rw [h]
  rfl

/-- A value that does not begin with a bracket or a brace is a text or a word. -/
theorem readValue_eq_readPlain {text : List Char} (hbracket : text.head? ≠ some '[')
    (hbrace : text.head? ≠ some '\x7b') (depth : Nat) : readValue depth text = readPlain text := by
  cases depth with
  | zero => rfl
  | succ depth =>
    unfold readValue
    split
    · simp at hbracket
    · simp at hbrace
    · rfl

/-! ## Writing -/

/-- An array of texts.  One with several items has an item per line. -/
def writeTexts (texts : List String) : List Char :=
  match texts with
  | [] => ['[', ']']
  | [item] => '[' :: (writeText item.toList ++ [']'])
  | items =>
    '[' :: ((items.flatMap fun item =>
      '\n' :: (List.replicate 4 ' ' ++ writeText item.toList ++ [','])) ++ ['\n', ']'])

/-- A whole number. -/
def writeNatural (n : Nat) : List Char :=
  Nat.toDigits 10 n

end CalendarStamp.Toml
