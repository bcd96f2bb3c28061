import CalendarStamp.Decimal.Natural
import CalendarStamp.Hash.Crc32
import CalendarStamp.Store.Fault

/-!
# The layout of a store

A store says in a file of its own how its log is laid out, one property to a
line, with a check sum behind the text.  Only stores that are laid out as new
ones are can be opened.

Main results:

- Theorem `check_current`: the file that a new store gets is accepted.
-/

namespace CalendarStamp.Store

/-- How the log of a store is laid out. -/
structure Layout where
  /-- The log is divided into segments of this size. -/
  segmentSize : Nat
  /-- Whether what is logged is compressed. -/
  compressed : Bool
  /-- The version of the format. -/
  version : Nat × Nat
deriving DecidableEq

namespace Layout

/-- The layout of new stores. -/
def current : Layout :=
  { segmentSize := 524288, compressed := false, version := (0, 34) }

/-! ## Writing -/

/-- The lines of a layout. -/
def text (layout : Layout) : String :=
  "segment_size: " ++ toString layout.segmentSize ++ "\n" ++
    "use_compression: " ++ StoreFault.truthText layout.compressed ++ "\n" ++
    "version: " ++ StoreFault.versionText layout.version ++ "\n"

/-- The number of bytes of the check sum. -/
def checkSumLength : Nat := 4

/-- The file of a layout. -/
def encode (layout : Layout) : Bytes :=
  let text := Utf8.encode layout.text
  text ++ Bytes.littleEndian checkSumLength (Hash.crc32 text).toNat

/-! ## Reading -/

/-- A line without the carriage return that may stand in front of its end. -/
def withoutReturn (line : Bytes) : Bytes :=
  if line.getLast? = some 0x0d then line.dropLast else line

/-- The lines of a text, of which the last one may have no end. -/
def lines (text : Bytes) : List Bytes :=
  let parts := Text.split 0x0a text
  parts.dropLast.map withoutReturn ++ parts.getLast?.toList.filter (· ≠ [])

/-- The parts of a line between colons with a blank behind. -/
def fields : List Char → List (List Char)
  | [] => [[]]
  | ':' :: ' ' :: rest => [] :: fields rest
  | c :: rest =>
    match fields rest with
    | [] => [[c]]
    | field :: more => (c :: field) :: more

/-- The name and the value in a line.  What follows a second colon is passed over. -/
def property (line : Bytes) : Except StoreFault (List Char × List Char) :=
  match Utf8.decode? line with
  | none => .error .ancient
  | some text =>
    match fields text.toList with
    | name :: value :: _ => .ok (name, value)
    | _ => .error (.damaged none)

/-- The value of the last property with a name. -/
def lastValue? (properties : List (List Char × List Char)) (name : String) :
    Option (List Char) :=
  (properties.reverse.find? fun property => property.1 = name.toList).map Prod.snd

/-- Sizes and versions stay below this bound. -/
def limit : Nat := 1 <<< 64

/-- The truth value that a word names. -/
def truth? (word : List Char) : Option Bool :=
  if word = "true".toList then some true
  else if word = "false".toList then some false
  else none

/-- The version that a text names.  Parts behind the second are passed over. -/
def version? (text : List Char) : Option (Nat × Nat) :=
  match Text.split '.' text with
  | major :: minor :: _ => do
    return (← Decimal.natural? limit major, ← Decimal.natural? limit minor)
  | _ => none

/-- The layout that properties describe. -/
def ofProperties? (properties : List (List Char × List Char)) : Option Layout := do
  let segmentSize ← (lastValue? properties "segment_size").bind (Decimal.natural? limit)
  let compressed ← (lastValue? properties "use_compression").bind truth?
  let version ← (lastValue? properties "version").bind version?
  return { segmentSize, compressed, version }

/-- The layout in a file.  The check sum is not looked at. -/
def decode (file : Bytes) : Except StoreFault Layout := do
  let properties ← (lines (file.take (file.length - checkSumLength))).mapM property
  match ofProperties? properties with
  | some layout => return layout
  | none => throw (.damaged none)

/-! ## Accepting -/

/-- A layout is accepted if it is that of new stores. -/
def accept (layout : Layout) : Except StoreFault Unit :=
  if layout.compressed ≠ current.compressed then
    .error (.compression layout.compressed current.compressed)
  else if layout.segmentSize ≠ current.segmentSize then
    .error (.segmentSize layout.segmentSize)
  else if layout.version ≠ current.version then
    .error (.version layout.version current.version)
  else
    .ok ()

/-- A file with no more bytes holds no layout yet. -/
def emptyLength : Nat := 8

/-- Whether a file holds a layout, and then an accepted one. -/
def check (file : Bytes) : Except StoreFault Bool := do
  if file.length ≤ emptyLength then
    return false
  else
    (← decode file).accept
    return true

/-- The file that a new store gets is accepted. -/
theorem check_current : check current.encode = .ok true := by
  rfl

end Layout

end CalendarStamp.Store
