import CalendarStamp.Store.Layout
import CalendarStamp.Store.Log
import CalendarStamp.Store.Snapshot

/-!
# The directory of a store

A store lives in a directory of its own: a directory for values apart from the
log, the layout, the log, and a snapshot that says how far the log had come.
Opening a store makes what is missing and checks what is there.  What was
changed before a failure stays.

Main results:

- Theorem `supplyLayout_idem`: a layout that was supplied is accepted.
- Theorem `supplyData_idem`: a data file that was supplied is left alone.
- Theorem `content?_append`: a log keeps its entries when others are appended.
-/

namespace CalendarStamp.Store.Directory

open FileTree (nameWithin)

/-! ## Steps of opening -/

/-- A step of opening, which may fail; what was changed before a failure stays. -/
abbrev Opening := Change FileTree StoreFault

/-- Look at the tree. -/
def look {α : Type} (view : FileTree → Except StoreFault α) : Opening α := do
  match view (← get) with
  | .ok a => return a
  | .error fault => throw fault

/-- Change the tree, unless that fails. -/
def change (next : FileTree → Except StoreFault FileTree) : Opening Unit := do
  set (← look next)

/-! ## Files that are made or checked -/

/-- The name of the directory for values apart from the log. -/
def valuesName : String := "blobs"

/-- The name of the file with the layout. -/
def layoutName : String := "conf"

/-- The name of the file with the log. -/
def dataName : String := "db"

/-- Make the directory of a store and the one inside it, unless something has
the name of the inner one.  Return where the outer one is. -/
def make (directory : String) : Opening (List String) := do
  let inner := nameWithin directory valuesName
  match (← get).resolve inner with
  | .ok (.directory parts) | .ok (.file parts _) => return parts.dropLast
  | _ =>
    let (tree, made) := (← get).makeDirectory inner
    set tree
    match made with
    | .ok parts => return parts.dropLast
    | .error cause => throw (.file cause)

/-- Whether a file holds an accepted layout, or none yet. -/
def hasLayout (directory : String) (tree : FileTree) : Except StoreFault Bool :=
  match tree.read (nameWithin directory layoutName) with
  | .ok file => Layout.check file
  | .error .notFound => .ok false
  | .error cause => .error (.file cause)

/-- Write the layout of new stores where there is none. -/
def supplyLayout (directory : String) (tree : FileTree) : Except StoreFault FileTree := do
  if ← hasLayout directory tree then
    return tree
  else
    (tree.write (nameWithin directory layoutName) Layout.current.encode).mapError .file

/-- Make an empty data file where there is none. -/
def supplyData (directory : String) (tree : FileTree) : Except StoreFault FileTree :=
  match tree.read (nameWithin directory dataName) with
  | .ok _ => .ok tree
  | .error .notFound => (tree.write (nameWithin directory dataName) []).mapError .file
  | .error cause => .error (.file cause)

/-! ## Snapshots -/

/-- The names of the snapshots in a directory.  They are looked for under its
trimmed name from the root, and are known by the beginning of their own names.
So none are found where trimming takes away more than a slash. -/
def snapshots (directory : String) (tree : FileTree) : Except StoreFault (List String) := do
  let whole := tree.nameFromRoot directory
  let place := FileTree.trimName whole
  match ← (tree.resolve place).mapError .file with
  | .directory parts =>
    if nameWithin place Snapshot.stem = nameWithin whole Snapshot.stem then
      return ((tree.namesIn parts).filter Snapshot.isName).map (nameWithin place)
    else
      return []
  | _ => throw (.file .notDirectory)

/-- How long the log was when the last snapshot was written, if there is one. -/
def lastLength (directory : String) (tree : FileTree) : Except StoreFault (Option Nat) := do
  match Snapshot.last? (← snapshots directory tree) with
  | none => return none
  | some name =>
    match Snapshot.read? (← (tree.read name).mapError .file) with
    | some length => return some length
    | none => throw (.damaged none)

/-- Take away a file, if the name is that of one. -/
def discard (tree : FileTree) (name : String) : FileTree :=
  match tree.resolve name with
  | .ok (.file parts _) => tree.remove parts
  | _ => tree

/-- Write the snapshot of a log with a length, first as a draft, and take away
the snapshots from before. -/
def saveSnapshot (directory : String) (length : Nat) : Opening Unit := do
  let draft := nameWithin directory (Snapshot.draftName length)
  let name := nameWithin directory (Snapshot.name length)
  change fun tree => (tree.write draft (Snapshot.write length)).mapError .file
  change fun tree => (tree.write name (Snapshot.write length)).mapError .file
  modify (discard · draft)
  let tree ← get
  let older := (← look (snapshots directory)).filter fun other =>
    !(Snapshot.name length).toList.isSuffixOf other.toList
  set (older.foldl discard tree)

/-! ## Values apart from the log -/

/-- The places in a log that come after its end. -/
def placeLimit : Nat := 1 <<< 63

/-- Whether a value belongs to a place behind the end of the log.  Its name is
the number of that place. -/
def isBehind (length : Nat) (name : String) : Bool :=
  match Decimal.natural? placeLimit name.toList with
  | some place => length < place
  | none => false

/-- Take away the values that belong behind the end of the log. -/
def discardValues (directory : List String) (length : Nat) (tree : FileTree) :
    Except StoreFault FileTree :=
  let inner := directory ++ [valuesName]
  let idle := ((tree.namesIn inner).filter (isBehind length)).map (inner ++ [·])
  if ¬ tree.isDirectory inner then
    .error (.file .notDirectory)
  else if idle.any tree.isDirectory then
    .error (.file .isDirectory)
  else
    .ok (idle.foldl FileTree.remove tree)

/-! ## Opening -/

/-- A store that was opened. -/
structure Opened where
  /-- Where its log is. -/
  data : List String
  store : Store

/-- Read the log of a store.  A new log is begun unless a snapshot shows that
there was one. -/
def readLog (name : String) (directory : List String) : Opening Opened := do
  let data := directory ++ [dataName]
  let last ← look (lastLength name)
  match Log.read? (((← get).content? data).getD []), last with
  | none, none =>
    modify (·.setContent data (Log.write []))
    return { data, store := .empty }
  | none, some length =>
    change (discardValues directory length)
    throw (.damaged (some Log.catalogue))
  | some log, _ =>
    if log.length < last.getD 0 then
      throw (.damaged none)
    if last ≠ some log.length then
      saveSnapshot name log.length
    change (discardValues directory log.length)
    return { data, store := .ofEntries log.entries }

/-- Open the store in a directory. -/
def openStore (name : String) : Opening Opened := do
  let directory ← make name
  change (supplyLayout name)
  change (supplyData name)
  readLog name directory

/-- Open the store in a directory of a tree; return the tree as it is then. -/
def openIn (tree : FileTree) (name : String) : FileTree × Except StoreFault Opened :=
  let (result, tree) := (openStore name).apply tree
  (tree, result)

/-- Append what was saved in a store to its log. -/
def Opened.append (opened : Opened) (tree : FileTree) (saved : List Entry) : FileTree :=
  if saved = [] then tree
  else tree.setContent opened.data ((tree.content? opened.data).getD [] ++ Log.additions saved)

/-! ## What stays from one opening to the next -/

open Outcome

/-- A layout that was supplied is accepted. -/
theorem supplyLayout_idem {directory : String} {tree supplied : FileTree}
    (h : supplyLayout directory tree = .ok supplied) :
    supplyLayout directory supplied = .ok supplied := by
  obtain ⟨present, hpresent, h⟩ := bind_eq_ok.mp h
  cases present with
  | true =>
    cases h
    simp [supplyLayout, hpresent]
  | false =>
    have hwrite := mapError_eq_ok.mp h
    have : hasLayout directory supplied = .ok true := by
      simp [hasLayout, FileTree.read_write hwrite, Layout.check_current]
    simp [supplyLayout, this]

/-- A data file that was supplied is left alone. -/
theorem supplyData_idem {directory : String} {tree supplied : FileTree}
    (h : supplyData directory tree = .ok supplied) :
    supplyData directory supplied = .ok supplied := by
  unfold supplyData at h
  split at h
  · rename_i content hread
    cases h
    simp [supplyData, hread]
  · simp [supplyData, FileTree.read_write (mapError_eq_ok.mp h)]
  · contradiction

/-- A log with entries has those that are appended behind them. -/
theorem content?_append {opened : Opened} {tree : FileTree} {entries : List Entry}
    (h : tree.content? opened.data = some (Log.write entries)) (saved : List Entry) :
    (opened.append tree saved).content? opened.data = some (Log.write (entries ++ saved)) := by
  unfold Opened.append
  split
  · simp_all
  · simp [h, Log.write_append]

end CalendarStamp.Store.Directory
