import CalendarStamp.Hash.Crc32
import CalendarStamp.Hex

/-!
# Snapshots of a log

How far a log had come when its store was last opened is kept in a file beside
it.  The file is written under a draft's name first.

Main results:

- Theorem `read?_write`: what was written is read.
-/

namespace CalendarStamp.Store.Snapshot

/-! ## Names -/

/-- What the names of snapshots begin with. -/
def stem : String := "snap."

/-- What the names of drafts end with. -/
def draftMark : String := ".in___motion"

/-- The name of the snapshot of a log with a length. -/
def name (length : Nat) : String :=
  stem ++ String.ofList ((Hex.encode (Bytes.bigEndian 8 length)).toList.map Char.toUpper)

/-- The name under which a snapshot is written first. -/
def draftName (length : Nat) : String :=
  name length ++ draftMark

/-- Whether a name is that of a snapshot, and not of a draft. -/
def isName (text : String) : Bool :=
  stem.toList.isPrefixOf text.toList && !draftMark.toList.isSuffixOf text.toList

/-- The last of some names in their order. -/
def last? : List String → Option String
  | [] => none
  | name :: names => some (names.foldl (fun last name => if last < name then name else last) name)

/-! ## Content -/

/-- The number of bytes behind the snapshot proper: its size and its check sum. -/
def trailerLength : Nat := 12

/-- The bytes behind a snapshot. -/
def trailer (content : Bytes) : Bytes :=
  Bytes.littleEndian 8 content.length ++ Bytes.littleEndian 4 (Hash.crc32 content).toNat

/-- The file of a snapshot. -/
def write (length : Nat) : Bytes :=
  let content := Bytes.littleEndian 8 length
  content ++ trailer content

/-- The length of the log that a file is the snapshot of. -/
def read? (file : Bytes) : Option Nat :=
  let size := file.length - trailerLength
  let content := file.take size
  if content.length = 8 ∧ file.drop size = trailer content then
    some (Bytes.ofLittleEndian content)
  else
    none

/-- What was written is read. -/
theorem read?_write {length : Nat} (h : length < 1 <<< 64) :
    read? (write length) = some length := by
  have hsize : (write length).length - trailerLength = (Bytes.littleEndian 8 length).length := by
    simp [write, trailer, trailerLength]
  have hvalue := Bytes.ofLittleEndian_littleEndian 8 length
  rw [Nat.mod_eq_of_lt (by simpa using h)] at hvalue
  unfold read?
  rw [hsize]
  simp [write, hvalue]

end CalendarStamp.Store.Snapshot
