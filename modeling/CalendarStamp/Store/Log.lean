import CalendarStamp.Hash.Crc32
import CalendarStamp.Store

/-!
# The log of a store

What is put into a store is appended to a log.  The log begins with a header
and the items of an empty store, and has one item more for every entry that was
put.  Every item carries a check sum, and the log ends where no item can be
read.

Main results:

- Theorem `Item.read?_encode`: a written item reads back.
- Theorem `Log.read?_write`: the entries that were written are read.
- Theorem `Log.write_append`: a log grows at its end.
-/

namespace CalendarStamp.Store

open Outcome

/-! ## Items -/

/-- What is appended to a log at once. -/
structure Item where
  kind : UInt8
  /-- The page that the item is about. -/
  page : Nat
  body : Bytes
deriving DecidableEq

namespace Item

/-- The catalogue of all pages. -/
def catalogueKind : UInt8 := 6

/-- The count of names that were given out. -/
def counterKind : UInt8 := 5

/-- A whole page. -/
def pageKind : UInt8 := 8

/-- One entry more on a page. -/
def entryKind : UInt8 := 10

/-- The number of bytes of a check sum. -/
def checkSumLength : Nat := 4

/-- The check sum of bytes, with all its bits turned over. -/
def checkSum (bytes : Bytes) : Bytes :=
  Bytes.littleEndian checkSumLength (Hash.crc32 bytes ^^^ 0xFFFFFFFF).toNat

@[simp] theorem length_checkSum (bytes : Bytes) : (checkSum bytes).length = checkSumLength := by
  simp [checkSum]

/-- The segment of the log that items are in. -/
def segment : Nat := 0

/-- What stands in front of the body of an item, behind its check sum. -/
def head (item : Item) : Bytes :=
  item.kind :: (Varint.write item.body.length ++ (Varint.write segment ++ Varint.write item.page))

/-- The bytes of an item. -/
def encode (item : Item) : Bytes :=
  checkSum (item.body ++ item.head) ++ (item.head ++ item.body)

/-- Read an item and return it with the bytes after it. -/
def read? (bytes : Bytes) : Option (Item × Bytes) :=
  match bytes.drop checkSumLength with
  | [] => none
  | kind :: rest => do
    let (size, rest) ← (Varint.read rest).toOption
    let (_, rest) ← (Varint.read rest).toOption
    let (page, rest) ← (Varint.read rest).toOption
    let item : Item := { kind, page, body := rest.take size }
    if item.body.length = size ∧ bytes.take checkSumLength = checkSum (item.body ++ item.head) then
      some (item, rest.drop size)
    else
      none

/-- Reading an item consumes at least one byte. -/
theorem read?_length {bytes rest : Bytes} {item : Item} (h : read? bytes = some (item, rest)) :
    rest.length < bytes.length := by
  unfold read? at h
  split at h
  · simp at h
  · rename_i kind tail hdrop
    have hlength : tail.length < bytes.length := by
      have := congrArg List.length hdrop
      simp only [List.length_drop, List.length_cons] at this
      omega
    simp only [Option.bind_eq_bind, Option.bind_eq_some_iff] at h
    obtain ⟨⟨size, first⟩, hsize, ⟨_, second⟩, hsegment, ⟨page, third⟩, hpage, h⟩ := h
    split at h
    · simp only [Option.some.injEq, Prod.mk.injEq] at h
      have hfirst := Varint.read_length (toOption_eq_some.mp hsize)
      have hsecond := Varint.read_length (toOption_eq_some.mp hsegment)
      have hthird := Varint.read_length (toOption_eq_some.mp hpage)
      simp only at hsecond hthird
      rw [← h.2, List.length_drop]
      omega
    · simp at h

/-- A written item reads back, and the bytes after it are left. -/
theorem read?_encode {item : Item} (hbody : item.body.length < Varint.limit)
    (hpage : item.page < Varint.limit) (rest : Bytes) :
    read? (item.encode ++ rest) = some (item, rest) := by
  have hdrop : (item.encode ++ rest).drop checkSumLength = item.head ++ (item.body ++ rest) := by
    simp [encode, List.append_assoc]
  have htake : (item.encode ++ rest).take checkSumLength = checkSum (item.body ++ item.head) := by
    simp [encode, List.append_assoc]
  have hsegment : segment < Varint.limit := by decide
  unfold read?
  rw [hdrop, htake]
  simp only [head, List.cons_append, List.append_assoc]
  simp [Except.toOption, Varint.read_write hbody, Varint.read_write hsegment,
    Varint.read_write hpage]

/-! ## Items in a row -/

/-- Read items as far as there are any; return them with the bytes after them. -/
def readAll (bytes : Bytes) : List Item × Bytes :=
  match _h : read? bytes with
  | none => ([], bytes)
  | some (item, rest) =>
    let (items, left) := readAll rest
    (item :: items, left)
termination_by bytes.length
decreasing_by exact read?_length _h

/-- An item in front is read first. -/
theorem readAll_of_read? {bytes rest : Bytes} {item : Item} (h : read? bytes = some (item, rest)) :
    readAll bytes = (item :: (readAll rest).1, (readAll rest).2) := by
  rw [readAll]
  split
  · simp_all
  · simp_all

/-- Written items read back. -/
theorem readAll_encode {items : List Item}
    (h : ∀ item ∈ items, item.body.length < Varint.limit ∧ item.page < Varint.limit) :
    readAll (items.flatMap encode) = (items, []) := by
  induction items with
  | nil =>
    rw [readAll]
    split
    · rfl
    · simp_all [read?]
  | cons item items ih =>
    obtain ⟨hbody, hpage⟩ := h item List.mem_cons_self
    rw [List.flatMap_cons, readAll_of_read? (read?_encode hbody hpage _),
      ih fun item hitem => h item (List.mem_cons_of_mem _ hitem)]

end Item

/-! ## Entries as items -/

/-- The page that holds the entries. -/
def entryPage : Nat := 2

/-- The item that puts an entry. -/
def Item.ofEntry (entry : Entry) : Item :=
  { kind := Item.entryKind
    page := entryPage
    body := 0 :: (Varint.writeBlock entry.1 ++ Varint.writeBlock entry.2) }

/-- The entry that an item puts. -/
def Item.added? (item : Item) : Option Entry :=
  match item.body with
  | 0 :: blocks =>
    if item.kind = Item.entryKind then do
      let (key, rest) ← (Varint.readBlock blocks).toOption
      let (value, _) ← (Varint.readBlock rest).toOption
      return (key, value)
    else
      none
  | _ => none

/-- The item that puts an entry gives that entry. -/
theorem Item.added?_ofEntry {entry : Entry}
    (h : (Item.ofEntry entry).body.length < Varint.limit) :
    (Item.ofEntry entry).added? = some entry := by
  simp only [ofEntry, Varint.writeBlock, List.length_cons, List.length_append] at h
  have hkey : entry.1.length < Varint.limit := by omega
  have hvalue : Varint.readBlock (Varint.writeBlock entry.2 ++ []) = .ok (entry.2, []) :=
    Varint.readBlock_writeBlock (by omega) []
  rw [List.append_nil] at hvalue
  simp [added?, ofEntry, Except.toOption, Varint.readBlock_writeBlock hkey, hvalue]

/-! ## Logs -/

/-- What a log tells. -/
structure Log where
  /-- The entries in the order in which they were put. -/
  entries : List Entry
  /-- How many bytes the log has. -/
  length : Nat
deriving DecidableEq

namespace Log

/-- The header: where the log begins and how far it was safe then, with all
bits but the highest turned over, and a check sum in front. -/
def header : Bytes :=
  let places := Bytes.littleEndian 8 (1 <<< 63 - 1) ++ Bytes.littleEndian 8 (1 <<< 63)
  Item.checkSum places ++ places

/-- The items of an empty store: a catalogue, a count, the page of the entries,
the page above it, and the catalogue that names that one. -/
def foundation : List Item :=
  [{ kind := Item.catalogueKind, page := 0, body := [0] },
   { kind := Item.counterKind, page := 1, body := [0] },
   { kind := Item.pageKind, page := entryPage, body := [0, 0, 0, 0, 0, 0, 1, 0] },
   { kind := Item.pageKind, page := 3, body := [0, 0, 0, 0, 0, 0, 0, 1, 0, 2] },
   { kind := Item.catalogueKind, page := 0
     body := [1, 15] ++ Utf8.encode "__sled__default" ++ [3] }]

/-- Where the last catalogue is. -/
def catalogue : Nat :=
  (header ++ (foundation.dropLast.flatMap Item.encode)).length

/-- The items that put entries. -/
def additions (entries : List Entry) : Bytes :=
  (entries.map Item.ofEntry).flatMap Item.encode

/-- The log of a store into which entries were put. -/
def write (entries : List Entry) : Bytes :=
  header ++ (foundation.flatMap Item.encode ++ additions entries)

/-- What a file tells as a log. -/
def read? (file : Bytes) : Option Log :=
  if file.take header.length = header then
    let (items, left) := Item.readAll (file.drop header.length)
    some { entries := items.filterMap Item.added?, length := file.length - left.length }
  else
    none

/-- A log grows at its end. -/
theorem write_append (entries more : List Entry) :
    write (entries ++ more) = write entries ++ additions more := by
  simp [write, additions, List.append_assoc]

/-- The items of an empty store put nothing. -/
theorem entries_foundation : foundation.filterMap Item.added? = [] := by
  decide +kernel

theorem foundation_small :
    ∀ item ∈ foundation, item.body.length < Varint.limit ∧ item.page < Varint.limit := by
  decide +kernel

theorem filterMap_eq_self {α : Type} {change : α → Option α} {items : List α}
    (h : ∀ item ∈ items, change item = some item) : items.filterMap change = items := by
  induction items with
  | nil => rfl
  | cons item items ih =>
    rw [List.filterMap_cons, h item List.mem_cons_self,
      ih fun item hitem => h item (List.mem_cons_of_mem _ hitem)]

/-- The entries that were written are read. -/
theorem read?_write {entries : List Entry}
    (h : ∀ entry ∈ entries, (Item.ofEntry entry).body.length < Varint.limit) :
    read? (write entries) = some { entries, length := (write entries).length } := by
  have hitems : ∀ item ∈ foundation ++ entries.map Item.ofEntry,
      item.body.length < Varint.limit ∧ item.page < Varint.limit := by
    intro item hitem
    rcases List.mem_append.mp hitem with hitem | hitem
    · exact foundation_small item hitem
    · obtain ⟨entry, hentry, rfl⟩ := List.mem_map.mp hitem
      exact ⟨h entry hentry, (by decide : entryPage < Varint.limit)⟩
  have hentries : (entries.map Item.ofEntry).filterMap Item.added? = entries := by
    rw [List.filterMap_map]
    exact filterMap_eq_self fun entry hentry => Item.added?_ofEntry (h entry hentry)
  have hwrite : write entries =
      header ++ (foundation ++ entries.map Item.ofEntry).flatMap Item.encode := by
    simp only [write, additions, List.flatMap_append]
  rw [read?, hwrite, List.take_left, List.drop_left, Item.readAll_encode hitems]
  simp only [if_true, List.filterMap_append, entries_foundation, hentries, List.nil_append,
    List.length_nil, Nat.sub_zero]

end Log

end CalendarStamp.Store
