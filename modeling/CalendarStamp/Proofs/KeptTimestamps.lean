import CalendarStamp.Proofs.Reloading
import CalendarStamp.Store
import Mathlib.Data.List.Basic

/-!
# What a store keeps

A timestamp is kept under its digest and read back from its stored form.  The
digest is computed from the timestamp as it was in memory, so a store is only
good when the digest survives the stored form.  It does: whatever is saved and
imported, in any order and with whatever failures in between, each entry reads
back as a timestamp whose digest is the entry's key, and it is the last that was
brought under this digest.

Main results:

- Theorem `lookup_eq_some_iff`: what is found under a key is an entry of the store.
- Theorem `lookup_saveAll`: saving many timestamps leaves the last one under each key.
- Theorem `faithful_after`: deposits keep each entry under the digest of what it
  reads back as.
- Theorem `keeps_last_deposits`: a store gives back what was last brought under
  each digest, and can be carried into any other store.
-/

namespace CalendarStamp

open Outcome

/-- Only a digest's own bytes are taken for it. -/
theorem Digest.ofBytes_eq_ok {bytes : Bytes} {digest : Digest} :
    ofBytes bytes = .ok digest ↔ bytes = digest.bytes := by
  constructor
  · intro h
    rw [ofBytes] at h
    split at h
    · cases h
      rfl
    · cases h
  · rintro rfl
    exact ofBytes_bytes digest

/-! ## Keys in order -/

/-- An entry is found under its key. -/
theorem Ascending.find?_of_mem {entries : List Entry} (h : Ascending entries) {entry : Entry}
    (hmem : entry ∈ entries) : entries.find? (fun other => other.1 = entry.1) = some entry := by
  induction entries with
  | nil => cases hmem
  | cons first rest ih =>
    obtain ⟨hfirst, hrest⟩ := List.pairwise_cons.mp h
    rcases List.mem_cons.mp hmem with rfl | hmem
    · simp
    · have hne : first.1 ≠ entry.1 := fun heq =>
        List.lt_irrefl _ (heq ▸ hfirst entry hmem)
      rw [List.find?_cons_of_neg (by simpa using hne)]
      exact ih hrest hmem

/-- Putting an entry under a key that is there adds no key. -/
theorem Ascending.keys_putEntry {entries : List Entry} (h : Ascending entries) {key : Bytes}
    (hmem : key ∈ entries.map Prod.fst) (value : Bytes) :
    (putEntry key value entries).map Prod.fst = entries.map Prod.fst := by
  induction entries with
  | nil => cases hmem
  | cons first rest ih =>
    obtain ⟨hfirst, hrest⟩ := List.pairwise_cons.mp h
    rw [List.map_cons, List.mem_cons] at hmem
    rw [putEntry]
    split
    · -- A key below the first one would be missing.
      rename_i hlt
      exfalso
      rcases hmem with heq | hmem
      · exact List.lt_irrefl _ (heq ▸ hlt)
      · obtain ⟨entry, hentry, rfl⟩ := List.mem_map.mp hmem
        exact List.lt_irrefl _ (List.lt_trans hlt (hfirst entry hentry))
    · split
      · rename_i heq
        rw [List.map_cons, List.map_cons, heq]
      · rename_i hne
        rw [List.map_cons, List.map_cons, ih hrest (hmem.resolve_left hne)]

namespace Store

/-- The keys under which there are entries, in order. -/
def keys (store : Store) : List Bytes :=
  store.entries.map Prod.fst

/-- What is found under a key is an entry of the store. -/
theorem lookup_eq_some_iff {store : Store} {key value : Bytes} :
    store.lookup key = some value ↔ (key, value) ∈ store.entries := by
  constructor
  · intro h
    obtain ⟨entry, hfound, rfl⟩ := Option.map_eq_some_iff.mp h
    have hkey : entry.1 = key := by simpa using List.find?_some hfound
    exact hkey ▸ List.mem_of_find?_eq_some hfound
  · intro h
    rw [lookup, store.ascending.find?_of_mem h]
    rfl

/-- A key is one under which something is found. -/
theorem mem_keys {store : Store} {key : Bytes} :
    key ∈ store.keys ↔ ∃ value, store.lookup key = some value := by
  simp [keys, lookup_eq_some_iff]

/-! ## Saving timestamps one after the other -/

/-- The store after timestamps were saved one after the other. -/
def saveAll (store : Store) (timestamps : List Timestamp) : Store :=
  timestamps.foldl (fun store timestamp => (store.save timestamp).2) store

@[simp] theorem saveAll_nil (store : Store) : store.saveAll [] = store := rfl

@[simp] theorem saveAll_cons (store : Store) (timestamp : Timestamp) (rest : List Timestamp) :
    store.saveAll (timestamp :: rest) = (store.save timestamp).2.saveAll rest := rfl

/-- A saved timestamp is found under its digest. -/
theorem lookup_save (store : Store) (timestamp : Timestamp) :
    (store.save timestamp).2.lookup timestamp.digestHash.bytes = some timestamp.toBytes :=
  lookup_put _ _ _

/-- Saving a timestamp leaves what is under other keys alone. -/
theorem lookup_save_of_ne (store : Store) {timestamp : Timestamp} {key : Bytes}
    (h : key ≠ timestamp.digestHash.bytes) :
    (store.save timestamp).2.lookup key = store.lookup key :=
  lookup_put_of_ne _ h _

/-- Saving many timestamps leaves the last one under each key. -/
theorem lookup_saveAll (store : Store) (timestamps : List Timestamp) (key : Bytes) :
    (store.saveAll timestamps).lookup key =
      ((timestamps.reverse.find? fun timestamp => timestamp.digestHash.bytes = key).map
        Timestamp.toBytes).or (store.lookup key) := by
  induction timestamps generalizing store with
  | nil => rfl
  | cons first rest ih =>
    rw [saveAll_cons, ih, List.reverse_cons, List.find?_append, Option.map_or, Option.or_assoc]
    by_cases hkey : first.digestHash.bytes = key
    · subst hkey
      simp [lookup_save]
    · rw [lookup_save_of_ne store (Ne.symm hkey)]
      simp [hkey]

/-- Saving timestamps leaves what is under other keys alone. -/
theorem lookup_saveAll_of_ne (store : Store) {timestamps : List Timestamp} {key : Bytes}
    (h : ∀ timestamp ∈ timestamps, key ≠ timestamp.digestHash.bytes) :
    (store.saveAll timestamps).lookup key = store.lookup key := by
  have hnone : (timestamps.reverse.find? fun timestamp => timestamp.digestHash.bytes = key) =
      none := by
    refine List.find?_eq_none.mpr fun timestamp hmem => ?_
    simpa using (h timestamp (List.mem_reverse.mp hmem)).symm
  rw [lookup_saveAll, hnone]
  rfl

/-- Of timestamps with different digests each is found once all are saved. -/
theorem lookup_saveAll_of_mem (store : Store) {timestamps : List Timestamp}
    (distinct : (timestamps.map Timestamp.digestHash).Nodup) {timestamp : Timestamp}
    (hmem : timestamp ∈ timestamps) :
    (store.saveAll timestamps).lookup timestamp.digestHash.bytes = some timestamp.toBytes := by
  induction timestamps generalizing store with
  | nil => cases hmem
  | cons first rest ih =>
    obtain ⟨hfirst, hrest⟩ := List.nodup_cons.mp distinct
    rw [saveAll_cons]
    rcases List.mem_cons.mp hmem with rfl | hmem
    · rw [lookup_saveAll_of_ne _ fun other hother heq => hfirst ?_, lookup_save]
      rw [Digest.ext heq]
      exact List.mem_map_of_mem hother
    · exact ih _ hrest hmem

/-- Timestamps with different digests that were saved are the entries under these. -/
theorem entriesAt_saveAll (store : Store) {timestamps : List Timestamp}
    (distinct : (timestamps.map Timestamp.digestHash).Nodup) :
    (store.saveAll timestamps).entriesAt (timestamps.map Timestamp.digestHash) =
      timestamps.map fun timestamp => (timestamp.digestHash.bytes, timestamp.toBytes) := by
  rw [entriesAt, List.filterMap_map]
  refine List.filterMap_eq_map_iff_forall_eq_some.mpr fun timestamp hmem => ?_
  rw [Function.comp_apply, lookup_saveAll_of_mem store distinct hmem, Option.map_some]

/-- Saving timestamps under keys that are there adds no key. -/
theorem keys_saveAll {store : Store} {timestamps : List Timestamp}
    (h : ∀ timestamp ∈ timestamps, timestamp.digestHash.bytes ∈ store.keys) :
    (store.saveAll timestamps).keys = store.keys := by
  induction timestamps generalizing store with
  | nil => rfl
  | cons first rest ih =>
    obtain ⟨hfirst, hrest⟩ := List.forall_mem_cons.mp h
    have hkeys : (store.save first).2.keys = store.keys :=
      store.ascending.keys_putEntry hfirst first.toBytes
    rw [saveAll_cons, ih (by rwa [hkeys]), hkeys]

/-! ## Reading the entries back -/

/-- An entry is read when its key is a digest and its value a stored timestamp. -/
theorem readEntry_eq_ok {entry : Entry} {digest : Digest} {timestamp : Timestamp} :
    readEntry entry = .ok (digest, timestamp) ↔
      entry.1 = digest.bytes ∧ Timestamp.ofBytes entry.2 = .ok timestamp := by
  rw [readEntry, ← Digest.ofBytes_eq_ok]
  cases Digest.ofBytes entry.1 with
  | error e => simp
  | ok read =>
    cases Timestamp.ofBytes entry.2 with
    | error e => simp
    | ok held => simp

/-- A timestamp is found when there is an entry that reads as it. -/
theorem get?_eq_some_iff {store : Store} {digest : Digest} {timestamp : Timestamp} :
    store.get? digest = .ok (some timestamp) ↔
      ∃ value, store.lookup digest.bytes = some value ∧
        Timestamp.ofBytes value = .ok timestamp := by
  rw [get?]
  cases store.lookup digest.bytes with
  | none => simp
  | some value => cases hvalue : Timestamp.ofBytes value <;> simp [hvalue]

/-- The timestamps that can be read, with their digests and in the order of these. -/
def contents (store : Store) : List (Digest × Timestamp) :=
  store.entries.filterMap fun entry => (readEntry entry).toOption

theorem mem_contents {store : Store} {digest : Digest} {timestamp : Timestamp} :
    (digest, timestamp) ∈ store.contents ↔ store.get? digest = .ok (some timestamp) := by
  simp only [contents, List.mem_filterMap, toOption_eq_some, readEntry_eq_ok, get?_eq_some_iff,
    lookup_eq_some_iff]
  constructor
  · rintro ⟨⟨key, value⟩, hmem, rfl, hread⟩
    exact ⟨value, hmem, hread⟩
  · rintro ⟨value, hmem, hread⟩
    exact ⟨(digest.bytes, value), hmem, rfl, hread⟩

/-- The digests of the timestamps that can be read ascend. -/
theorem ascending_contents (store : Store) :
    store.contents.Pairwise fun a b => a.1.bytes < b.1.bytes := by
  refine store.ascending.filterMap _ ?_
  rintro entry entry' hlt ⟨digest, timestamp⟩ hread ⟨digest', timestamp'⟩ hread'
  rw [toOption_eq_some, readEntry_eq_ok] at hread hread'
  rwa [← hread.1, ← hread'.1]

/-- The list succeeds when each entry can be read. -/
theorem list_eq_contents {store : Store}
    (h : ∀ entry ∈ store.entries, ∃ read, readEntry entry = .ok read) :
    store.list = .ok store.contents := by
  rw [list, contents]
  revert h
  generalize store.entries = entries
  intro h
  induction entries with
  | nil => rfl
  | cons first rest ih =>
    obtain ⟨⟨read, hread⟩, hrest⟩ := List.forall_mem_cons.mp h
    rw [List.mapM_cons, hread, ok_bind, ih hrest, ok_bind]
    simp [hread, Except.toOption]

/-! ## Entries that are what they are kept as -/

/-- Whether an entry is a timestamp's stored form under its digest, and reads back
as this timestamp. -/
structure KeptAs (entry : Entry) (timestamp : Timestamp) : Prop where
  key : entry.1 = timestamp.digestHash.bytes
  value : entry.2 = timestamp.toBytes
  reads : Timestamp.ofBytes timestamp.toBytes = .ok timestamp

/-- Whether each entry is the stored form of a timestamp that it reads back as,
under the digest of this timestamp. -/
def Faithful (store : Store) : Prop :=
  ∀ entry ∈ store.entries, ∃ timestamp, KeptAs entry timestamp

theorem faithful_empty : empty.Faithful := by
  intro entry hmem
  cases hmem

/-- Saving a timestamp adds an entry that reads back as the timestamp, but for the
sign of zeros, and has no part in the other entries. -/
theorem Faithful.save {store : Store} (h : store.Faithful) {timestamp : Timestamp}
    (fits : timestamp.toBytes.length < Varint.limit) : (store.save timestamp).2.Faithful := by
  intro entry hmem
  rcases mem_putEntry hmem with rfl | hmem
  · refine ⟨timestamp.normalized, ?_, ?_, ?_⟩
    · exact congrArg Digest.bytes timestamp.digestHash_normalized.symm
    · exact timestamp.toBytes_normalized.symm
    · rw [Timestamp.toBytes_normalized, Timestamp.ofBytes_toBytes timestamp fits]
  · exact h entry hmem

theorem Faithful.saveAll {store : Store} (h : store.Faithful) {timestamps : List Timestamp}
    (fits : ∀ timestamp ∈ timestamps, timestamp.toBytes.length < Varint.limit) :
    (store.saveAll timestamps).Faithful := by
  induction timestamps generalizing store with
  | nil => exact h
  | cons first rest ih =>
    obtain ⟨hfirst, hrest⟩ := List.forall_mem_cons.mp fits
    exact ih (h.save hfirst) hrest

/-- The list of a faithful store succeeds. -/
theorem Faithful.list {store : Store} (h : store.Faithful) : store.list = .ok store.contents := by
  refine list_eq_contents fun entry hmem => ?_
  obtain ⟨timestamp, hkept⟩ := h entry hmem
  exact ⟨(timestamp.digestHash, timestamp),
    readEntry_eq_ok.mpr ⟨hkept.key, hkept.value ▸ hkept.reads⟩⟩

/-- What a faithful store gives is kept under the digest that it was asked for. -/
theorem Faithful.of_get? {store : Store} (h : store.Faithful) {digest : Digest}
    {timestamp : Timestamp} (hget : store.get? digest = .ok (some timestamp)) :
    timestamp.digestHash = digest ∧ store.lookup digest.bytes = some timestamp.toBytes ∧
      Timestamp.ofBytes timestamp.toBytes = .ok timestamp := by
  obtain ⟨value, hlookup, hread⟩ := get?_eq_some_iff.mp hget
  obtain ⟨kept, hkey, rfl, hreads⟩ := h _ (lookup_eq_some_iff.mp hlookup)
  cases hreads.symm.trans hread
  exact ⟨(Digest.ext hkey).symm, hlookup, hreads⟩

/-! ## Deposits -/

/-- What is done to bring a timestamp into a store. -/
inductive Deposit
  | save (timestamp : Timestamp)
  | importBytes (bytes : Bytes)

/-- The timestamp that is brought, unless it cannot be read. -/
def Deposit.timestamp? : Deposit → Option Timestamp
  | save timestamp => some timestamp
  | importBytes bytes => (Timestamp.ofBytes bytes).toOption

/-- What is done to the store in place. -/
def Deposit.change : Deposit → Change Store Error Digest
  | save timestamp => modifyGet (·.save timestamp)
  | importBytes bytes => importing bytes

/-- The outcome of a deposit, and the store that it leaves. -/
def deposit (store : Store) (made : Deposit) : Except Error Digest × Store :=
  made.change.apply store

/-- The store after deposits. -/
def after (store : Store) (deposits : List Deposit) : Store :=
  deposits.foldl (fun store made => (store.deposit made).2) store

/-- The timestamps that deposits bring, in order. -/
def brought (deposits : List Deposit) : List Timestamp :=
  deposits.filterMap Deposit.timestamp?

/-- The last timestamp that deposits bring under a digest. -/
def lastUnder? (digest : Digest) (deposits : List Deposit) : Option Timestamp :=
  (brought deposits).reverse.find? fun timestamp => timestamp.digestHash = digest

theorem importBytes_of_ok (store : Store) {bytes : Bytes} {timestamp : Timestamp}
    (h : Timestamp.ofBytes bytes = .ok timestamp) :
    store.importBytes bytes = .ok (store.save timestamp) := by
  rw [importBytes_eq, h]
  rfl

theorem importBytes_of_error (store : Store) {bytes : Bytes} {e : Error}
    (h : Timestamp.ofBytes bytes = .error e) : store.importBytes bytes = .error e := by
  rw [importBytes_eq, h]
  rfl

/-- A deposit saves the timestamp that it brings. -/
theorem deposit_of_some (store : Store) {made : Deposit} {timestamp : Timestamp}
    (h : made.timestamp? = some timestamp) :
    store.deposit made = (.ok timestamp.digestHash, (store.save timestamp).2) := by
  cases made with
  | save saved =>
    cases h
    rfl
  | importBytes bytes =>
    exact Change.attempt_eq_ok.mp (importBytes_of_ok store (toOption_eq_some.mp h))

/-- A deposit that brings nothing is an import of what cannot be read, and changes
nothing. -/
theorem deposit_of_none (store : Store) {made : Deposit} (h : made.timestamp? = none) :
    ∃ bytes e, made = .importBytes bytes ∧ Timestamp.ofBytes bytes = .error e ∧
      store.deposit made = (.error e, store) := by
  cases made with
  | save saved => cases h
  | importBytes bytes =>
    cases hread : Timestamp.ofBytes bytes with
    | ok timestamp => simp [Deposit.timestamp?, hread, Except.toOption] at h
    | error e =>
      exact ⟨bytes, e, rfl, hread,
        (atomic_importing bytes).apply_of_error (importBytes_of_error store hread)⟩

/-- Deposits save the timestamps that they bring. -/
theorem after_eq_saveAll (store : Store) (deposits : List Deposit) :
    store.after deposits = store.saveAll (brought deposits) := by
  induction deposits generalizing store with
  | nil => rfl
  | cons made rest ih =>
    have hcons : store.after (made :: rest) = (store.deposit made).2.after rest := rfl
    rw [hcons, ih]
    cases hbrought : made.timestamp? with
    | some timestamp =>
      rw [deposit_of_some store hbrought, brought, brought, List.filterMap_cons_some hbrought]
      rfl
    | none =>
      obtain ⟨_, _, _, _, hdeposit⟩ := store.deposit_of_none hbrought
      rw [hdeposit, brought, brought, List.filterMap_cons_none hbrought]

/-- Deposits keep each entry under the digest of what it reads back as. -/
theorem faithful_after {deposits : List Deposit}
    (fits : ∀ timestamp ∈ brought deposits, timestamp.toBytes.length < Varint.limit) :
    (empty.after deposits).Faithful := by
  rw [after_eq_saveAll]
  exact faithful_empty.saveAll fits

/-- The stored form of what was last brought under a digest is found under it. -/
theorem lookup_after (deposits : List Deposit) (digest : Digest) :
    (empty.after deposits).lookup digest.bytes =
      (lastUnder? digest deposits).map Timestamp.toBytes := by
  have hdigest (timestamp : Timestamp) :
      timestamp.digestHash.bytes = digest.bytes ↔ timestamp.digestHash = digest :=
    ⟨Digest.ext, congrArg Digest.bytes⟩
  rw [after_eq_saveAll, lookup_saveAll, lookup_empty, Option.or_none, lastUnder?]
  simp only [hdigest]

/-- What was last brought under a digest is read back, but for the sign of zeros. -/
theorem get?_after {deposits : List Deposit}
    (fits : ∀ timestamp ∈ brought deposits, timestamp.toBytes.length < Varint.limit)
    (digest : Digest) :
    (empty.after deposits).get? digest =
      .ok ((lastUnder? digest deposits).map Timestamp.normalized) := by
  rw [get?, lookup_after]
  cases hlast : lastUnder? digest deposits with
  | none => rfl
  | some timestamp =>
    have hmem : timestamp ∈ brought deposits := by
      simpa using List.mem_of_find?_eq_some hlast
    simp only [Option.map_some, Timestamp.ofBytes_toBytes timestamp (fits timestamp hmem)]
    rfl

/-- After any deposits in an empty store, failed imports among them, the list
succeeds.  Its digests ascend strictly, each stands before a timestamp that has
this digest, and the list holds just what is given under each digest.  What is
given is what was last brought under the digest, but for the sign of zeros, and
nothing when nothing was.  What is given under a digest can be written out and
imported into any store, where it is kept under the same digest, in the same
stored form, and given back unchanged.

Whatever the store, a deposit answers with the digest of what it brings and
leaves what is under other keys alone.  Only an import of what cannot be read
fails, and it leaves the whole store as it is.  The stored forms are shorter than
the limit of numerals, as they are in any memory with addresses of 64 bits. -/
theorem keeps_last_deposits (deposits : List Deposit)
    (fits : ∀ timestamp ∈ brought deposits, timestamp.toBytes.length < Varint.limit) :
    (∃ listed, (empty.after deposits).list = .ok listed ∧
        (listed.Pairwise fun a b => a.1.bytes < b.1.bytes) ∧
        (∀ pair ∈ listed, pair.2.digestHash = pair.1) ∧
        ∀ digest timestamp, (digest, timestamp) ∈ listed ↔
          (lastUnder? digest deposits).map Timestamp.normalized = some timestamp) ∧
      (∀ digest, (empty.after deposits).get? digest =
        .ok ((lastUnder? digest deposits).map Timestamp.normalized)) ∧
      (∀ digest timestamp, (empty.after deposits).get? digest = .ok (some timestamp) →
        (empty.after deposits).lookup digest.bytes = some timestamp.toBytes ∧
          ∀ target : Store, ∃ next, target.importBytes timestamp.toBytes = .ok (digest, next) ∧
            next.lookup digest.bytes = some timestamp.toBytes ∧
            next.get? digest = .ok (some timestamp)) ∧
      (∀ (store : Store) (made : Deposit) (timestamp : Timestamp),
        made.timestamp? = some timestamp →
          (store.deposit made).1 = .ok timestamp.digestHash ∧
            ∀ key, key ≠ timestamp.digestHash.bytes →
              (store.deposit made).2.lookup key = store.lookup key) ∧
      ∀ (store : Store) (made : Deposit) (e : Error), (store.deposit made).1 = .error e →
        (store.deposit made).2 = store ∧
          ∃ bytes, made = .importBytes bytes ∧ Timestamp.ofBytes bytes = .error e := by
  have hfaithful := faithful_after fits
  have hget := get?_after fits
  refine ⟨⟨_, hfaithful.list, ascending_contents _, ?_, ?_⟩, hget, ?_, ?_, ?_⟩
  · rintro ⟨digest, timestamp⟩ hmem
    exact (hfaithful.of_get? (mem_contents.mp hmem)).1
  · intro digest timestamp
    rw [mem_contents, hget, Except.ok.injEq]
  · intro digest timestamp hgiven
    obtain ⟨rfl, hlookup, hreads⟩ := hfaithful.of_get? hgiven
    refine ⟨hlookup, fun target => ⟨_, importBytes_of_ok target hreads, ?_, ?_⟩⟩
    · exact lookup_save target timestamp
    · exact get?_eq_some_iff.mpr ⟨_, lookup_save target timestamp, hreads⟩
  · intro store made timestamp hmade
    rw [store.deposit_of_some hmade]
    exact ⟨rfl, fun key hkey => lookup_save_of_ne store hkey⟩
  · intro store made e hfailed
    cases hmade : made.timestamp? with
    | some timestamp =>
      rw [store.deposit_of_some hmade] at hfailed
      cases hfailed
    | none =>
      obtain ⟨bytes, cause, rfl, hread, hdeposit⟩ := store.deposit_of_none hmade
      rw [hdeposit] at hfailed ⊢
      cases hfailed
      exact ⟨rfl, bytes, rfl, hread⟩

/-- A timestamp with an attestation. -/
def attested : Timestamp :=
  Timestamp.specimen.attach 7 { calendarUrl := "a" }

/-- A timestamp is saved before it has an attestation and imported when it has one.
In between an import fails and another timestamp is saved. -/
def resaved : List Deposit :=
  [.save Timestamp.specimen, .importBytes [0x09], .save Timestamp.oddities,
    .importBytes attested.toBytes]

/-- Of the two deposits under one digest the later one is kept, and what is listed can
be imported again. -/
theorem keeps_last_deposits_resaved :
    brought resaved = [Timestamp.specimen, Timestamp.oddities, attested] ∧
      (∀ timestamp ∈ brought resaved, timestamp.toBytes.length < Varint.limit) ∧
      (empty.after resaved).get? Timestamp.specimen.digestHash = .ok (some attested) ∧
      (empty.after resaved).get? Timestamp.oddities.digestHash =
        .ok (some Timestamp.rereadOddities) ∧
      (∃ listed, (empty.after resaved).list = .ok listed ∧
        (Timestamp.specimen.digestHash, attested) ∈ listed) ∧
      ∃ next, empty.importBytes attested.toBytes = .ok (Timestamp.specimen.digestHash, next) ∧
        next.get? Timestamp.specimen.digestHash = .ok (some attested) := by
  have hfits : ∀ timestamp ∈ brought resaved, timestamp.toBytes.length < Varint.limit := by
    decide +kernel
  have hattested : (lastUnder? Timestamp.specimen.digestHash resaved).map Timestamp.normalized =
      some attested := by decide +kernel
  have hoddities : (lastUnder? Timestamp.oddities.digestHash resaved).map Timestamp.normalized =
      some Timestamp.rereadOddities := by decide +kernel
  obtain ⟨⟨listed, hlist, _, _, hlisted⟩, hget, hcarried, _⟩ := keeps_last_deposits resaved hfits
  have hgiven : (empty.after resaved).get? Timestamp.specimen.digestHash = .ok (some attested) := by
    rw [hget, hattested]
  obtain ⟨next, himported, _, hnext⟩ := (hcarried _ _ hgiven).2 empty
  refine ⟨by decide +kernel, hfits, hgiven, ?_, ⟨listed, hlist, ?_⟩, next, himported, hnext⟩
  · rw [hget, hoddities]
  · exact (hlisted _ _).mpr hattested

end Store

end CalendarStamp
