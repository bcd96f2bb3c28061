import CalendarStamp.Store.Fault
import CalendarStamp.View

/-!
# The store

Timestamps are kept in their stored form under the bytes of their digest, in
ascending order of these bytes.  The order is part of the type, so listing
needs no sorting.

Main results:

- Theorem `lookup_put`: what was put under a key is found under it.
- Theorem `lookup_put_of_ne`: putting an entry leaves the other entries alone.
- Theorem `atomic_importing`: an import that fails leaves the store as it was.

Current gaps: the store lies in memory, so keeping a timestamp or looking at one
does not fail for want of room or because a file cannot be read.
-/

namespace CalendarStamp

/-! ## Entries in order -/

/-- A key with its value. -/
abbrev Entry := Bytes × Bytes

/-- Entries in strictly ascending order of their keys. -/
def Ascending (entries : List Entry) : Prop :=
  entries.Pairwise fun a b => a.1 < b.1

/-- Put a value under a key into entries in order. -/
def putEntry (key value : Bytes) : List Entry → List Entry
  | [] => [(key, value)]
  | entry :: rest =>
    if key < entry.1 then (key, value) :: entry :: rest
    else if key = entry.1 then (key, value) :: rest
    else entry :: putEntry key value rest

/-- Every entry is the new one or was there before. -/
theorem mem_putEntry {key value : Bytes} {entries : List Entry} {entry : Entry}
    (h : entry ∈ putEntry key value entries) : entry = (key, value) ∨ entry ∈ entries := by
  induction entries with
  | nil => simpa [putEntry] using h
  | cons first rest ih =>
    simp only [putEntry] at h
    split at h
    · simpa using h
    · split at h
      · rcases List.mem_cons.mp h with h | h
        · exact .inl h
        · exact .inr (List.mem_cons_of_mem _ h)
      · rcases List.mem_cons.mp h with h | h
        · exact .inr (h ▸ List.mem_cons_self)
        · rcases ih h with h | h
          · exact .inl h
          · exact .inr (List.mem_cons_of_mem _ h)

/-- Putting an entry keeps the order. -/
theorem ascending_putEntry {key value : Bytes} {entries : List Entry}
    (h : Ascending entries) : Ascending (putEntry key value entries) := by
  induction entries with
  | nil => simp [putEntry, Ascending]
  | cons first rest ih =>
    obtain ⟨hfirst, hrest⟩ := List.pairwise_cons.mp h
    simp only [putEntry]
    split
    · rename_i hlt
      refine List.pairwise_cons.mpr ⟨fun entry hentry => ?_, h⟩
      rcases List.mem_cons.mp hentry with rfl | hentry
      · exact hlt
      · exact List.lt_trans hlt (hfirst entry hentry)
    · split
      · rename_i heq
        exact List.pairwise_cons.mpr ⟨fun entry hentry => heq ▸ hfirst entry hentry, hrest⟩
      · rename_i hnot hne
        refine List.pairwise_cons.mpr ⟨fun entry hentry => ?_, ih hrest⟩
        rcases mem_putEntry hentry with rfl | hentry
        · grind
        · exact hfirst entry hentry

/-- Entries in ascending order of their keys. -/
structure Store where
  entries : List Entry
  ascending : Ascending entries

namespace Store

/-! ## Looking up and putting -/

/-- A store without entries. -/
def empty : Store := ⟨[], List.Pairwise.nil⟩

instance : Inhabited Store := ⟨empty⟩

/-- The value under a key. -/
def lookup (store : Store) (key : Bytes) : Option Bytes :=
  (store.entries.find? fun entry => entry.1 = key).map Prod.snd

/-- Put a value under a key, in place of the one that may be there. -/
def put (store : Store) (key value : Bytes) : Store :=
  ⟨putEntry key value store.entries, ascending_putEntry store.ascending⟩

theorem find?_putEntry (key value : Bytes) (entries : List Entry) :
    (putEntry key value entries).find? (fun entry => entry.1 = key) = some (key, value) := by
  induction entries with
  | nil => simp [putEntry]
  | cons first rest ih =>
    simp only [putEntry]
    split
    · simp
    · split
      · simp
      · rename_i hne
        have : ¬ first.1 = key := fun h => hne h.symm
        simp [this, ih]

theorem find?_putEntry_of_ne {key other : Bytes} (h : other ≠ key) (value : Bytes)
    (entries : List Entry) :
    (putEntry key value entries).find? (fun entry => entry.1 = other) =
      entries.find? fun entry => entry.1 = other := by
  have hne : ¬ key = other := fun e => h e.symm
  induction entries with
  | nil => simp [putEntry, hne]
  | cons first rest ih =>
    simp only [putEntry]
    split
    · simp [hne]
    · split
      · rename_i heq
        have : ¬ first.1 = other := heq ▸ hne
        simp [hne, this]
      · simp only [List.find?_cons, ih]

/-- What was put under a key is found under it. -/
@[simp] theorem lookup_put (store : Store) (key value : Bytes) :
    (store.put key value).lookup key = some value := by
  simp [lookup, put, find?_putEntry]

/-- Putting an entry leaves the other entries alone. -/
theorem lookup_put_of_ne (store : Store) {key other : Bytes} (h : other ≠ key) (value : Bytes) :
    (store.put key value).lookup other = store.lookup other := by
  simp [lookup, put, find?_putEntry_of_ne h]

/-- The store that holds entries, the last one under every key. -/
def ofEntries (entries : List Entry) : Store :=
  entries.foldl (fun store entry => store.put entry.1 entry.2) empty

@[simp] theorem lookup_empty (key : Bytes) : empty.lookup key = none := rfl

end Store

/-! ## Timestamps in a store -/

/-- Why a store could not do what was asked. -/
inductive StoreError
  /-- A key in the store has this length and so is no digest. -/
  | invalidKey (length : Nat)
  /-- Nothing is kept under the digest. -/
  | missing (digest : Digest)
  /-- The store cannot be opened at its place. -/
  | unopenable (fault : StoreFault)
  /-- A record is not that of a timestamp. -/
  | chain (cause : Error)
deriving DecidableEq

/-- The sentence that reports the error. -/
def StoreError.message : StoreError → String
  | invalidKey length =>
    "Storage error: Invalid digest in database: " ++ (Error.invalidDigestLength length).message
  | missing digest => "Storage error: Timestamp not found: " ++ digest.toHex
  | unopenable fault => "Storage error: Failed to open database: " ++ fault.message
  | chain cause => cause.message

namespace Store

/-- Keep a timestamp under its digest. -/
def save (store : Store) (timestamp : Timestamp) : Digest × Store :=
  let digest := timestamp.digestHash
  (digest, store.put digest.bytes timestamp.toBytes)

/-- The entries under digests, as far as there are any. -/
def entriesAt (store : Store) (digests : List Digest) : List Entry :=
  digests.filterMap fun digest => (store.lookup digest.bytes).map (digest.bytes, ·)

/-- The timestamp under a digest. -/
def get? (store : Store) (digest : Digest) : Except Error (Option Timestamp) :=
  match store.lookup digest.bytes with
  | none => .ok none
  | some bytes => some <$> Timestamp.ofBytes bytes

/-- The timestamp of an entry with its digest. -/
def readEntry (entry : Entry) : Except StoreError (Digest × Timestamp) :=
  match Digest.ofBytes entry.1 with
  | .error _ => .error (.invalidKey entry.1.length)
  | .ok digest =>
    match Timestamp.ofBytes entry.2 with
    | .error cause => .error (.chain cause)
    | .ok timestamp => .ok (digest, timestamp)

/-- All timestamps in the order of their digests.  One bad entry spoils the
whole list. -/
def list (store : Store) : Except StoreError (List (Digest × Timestamp)) :=
  store.entries.mapM readEntry

/-- The view of the timestamp under a digest, with one item per line. -/
def viewText (store : Store) (digest : Digest) : Except StoreError String := do
  match ← (store.get? digest).mapError .chain with
  | some timestamp => return timestamp.view.pretty
  | none => throw (.missing digest)

open Change

/-- Keep the timestamp with a stored form. -/
def importing (bytes : Bytes) : Change Store Error Digest := do
  let timestamp ← Timestamp.ofBytes bytes
  modifyGet (·.save timestamp)

/-- Bytes that are no stored form leave the store as it was. -/
theorem atomic_importing (bytes : Bytes) : Atomic id (importing bytes) :=
  (steady_lift _).bind_atomic fun _ => (total_modifyGet _).atomic

/-- The digest of the timestamp with a stored form, and the store that keeps it. -/
def importBytes (store : Store) (bytes : Bytes) : Except Error (Digest × Store) :=
  (importing bytes).attempt store

theorem importBytes_eq (store : Store) (bytes : Bytes) :
    store.importBytes bytes = store.save <$> Timestamp.ofBytes bytes := by
  rw [importBytes, importing, attempt_lift_bind]
  cases Timestamp.ofBytes bytes <;> rfl

end Store

end CalendarStamp
