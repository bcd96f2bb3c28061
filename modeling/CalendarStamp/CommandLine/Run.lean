import CalendarStamp.Client
import CalendarStamp.CommandLine.Invocation
import CalendarStamp.Configuration.File
import CalendarStamp.Store

/-!
# Carrying out commands

A command works in place on a tree of files and on a store, keeps a log and
prints.  It comes to its end or fails on the way, and what it has done until then
remains.

Main results:

- Theorems `steady_inspect`, `steady_list` and `steady_exportRecord`: showing a
  timestamp, listing all of them and writing out a record leave the store as it is.
- Theorem `atomic_job`: a command that fails has changed neither files nor store.
- Theorem `run_of_error`: what such a command leaves behind.

Current gaps: a program that cannot set up its connections to calendars fails
before it begins, which is left out here, as is a store that fails in the middle
of an update.
-/

namespace CalendarStamp.CommandLine

/-! ## Failures -/

/-- Why a command fails. -/
inductive Failure
  | store (cause : StoreError)
  | chain (cause : Error)
  | configuration (cause : ConfigurationError)
  /-- A file given as an argument cannot be read. -/
  | unreadable (name : String) (cause : FileError)
  /-- The output file cannot be written. -/
  | unwritable (cause : FileError)
  /-- Nothing is stored under the digest. -/
  | unknownDigest (digest : Digest)
  /-- No calendar took the digest of a file. -/
  | notAccepted (name : String)
deriving DecidableEq

namespace Failure

/-- The sentence that reports the failure. -/
def message : Failure → String
  | store cause => cause.message
  | chain cause => cause.message
  | configuration cause => cause.message
  | unreadable name _ => "Failed to read " ++ name
  | unwritable cause => cause.message
  | unknownDigest digest => "No timestamp found for digest: " ++ digest.toHex
  | notAccepted name => "No calendar accepted the digest for " ++ name

/-- The sentence about what lies behind a failure, where there is more to say. -/
def cause? : Failure → Option String
  | unreadable _ cause => some cause.message
  | chain (.hex cause) => some cause.message
  | _ => none

/-- What is printed about a failure. -/
def report (failure : Failure) : String :=
  "Error: " ++ failure.message ++ "\n" ++
    match failure.cause? with
    | some cause => "\nCaused by:\n    " ++ cause ++ "\n"
    | none => ""

end Failure

/-! ## Circumstances and results -/

/-- What a command finds besides files and the store. -/
structure Session where
  /-- The list of calendars in the environment. -/
  calendarList : Option String
  /-- The time at which a timestamp is made. -/
  now : UInt32
  /-- What the clock shows after that, while calendars answer. -/
  clock : Clock := now
  /-- A nonce that has not been used before. -/
  nonce : Nonce
  /-- The calendars' replies. -/
  transport : Transport

/-- What a command works on, with what it has noted and printed so far. -/
structure Workspace where
  tree : FileTree
  store : Store
  /-- The digests under which timestamps were saved, in order. -/
  saved : List Digest := []
  log : List Event := []
  output : String := ""

/-- What a command does. -/
abbrev Job := Change Workspace Failure

open Change Outcome

/-- Lines of text, each with its end. -/
def lines (texts : List String) : String :=
  String.join (texts.map (· ++ "\n"))

namespace Workspace

/-- What a command leaves behind for the commands after it. -/
def lasting (here : Workspace) : FileTree × Store × List Digest :=
  (here.tree, here.store, here.saved)

/-- Put another tree of files into a workspace. -/
def withTree (here : Workspace) (tree : FileTree) : Workspace :=
  { here with tree }

/-- Put another store into a workspace. -/
def withStore (here : Workspace) (store : Store) : Workspace :=
  { here with store }

end Workspace

/-- Print lines. -/
def print (texts : List String) : Job Unit :=
  modify fun here => { here with output := here.output ++ lines texts }

/-- Put events on the log. -/
def note (events : List Event) : Job Unit :=
  modify fun here => { here with log := here.log ++ events }

/-- Note that something was saved under a digest. -/
def noteSaved (digest : Digest) : Job Unit :=
  modify fun here => { here with saved := here.saved ++ [digest] }

/-- How many attestations a timestamp has, and how many wait. -/
def statusSummary (timestamp : Timestamp) : String :=
  toString timestamp.attestations.length ++ " attestation(s), " ++
    toString timestamp.pending.length ++ " pending"

/-- The settings that a command works with. -/
def loadConfiguration (session : Session) (tree : FileTree) (file : Option String) :
    Except Failure Configuration :=
  match file with
  | some name => (Configuration.load tree name session.calendarList).mapError .configuration
  | none => .ok (Configuration.default.withEnvironment session.calendarList)

/-- The stored timestamp under a digest given as text. -/
def loadTimestamp (store : Store) (text : String) : Except Failure (Digest × Timestamp) := do
  let digest ← (Digest.ofHex text).mapError .chain
  match ← (store.get? digest).mapError .chain with
  | some timestamp => return (digest, timestamp)
  | none => throw (.unknownDigest digest)

/-! ## Stamping -/

/-- A new timestamp of a file's content, and the calendars to submit it to. -/
def prepareStamp (session : Session) (tree : FileTree) (configurationFile : Option String)
    (file : String) (source : Option String) (calendars : List String) :
    Except Failure (Bytes × Timestamp × List String) := do
  let content ← (tree.read file).mapError (.unreadable file)
  let hash := Hash.sha256 content
  let timestamp ← (Timestamp.create session.now hash session.nonce).mapError .chain
  let timestamp := (source.map timestamp.setSource).getD timestamp
  let configuration ← loadConfiguration session tree configurationFile
  return (hash, timestamp, if calendars = [] then configuration.calendars else calendars)

/-- Timestamp a file. -/
def stamp (session : Session) (configurationFile : Option String) (file : String)
    (source : Option String) (calendars : List String) : Job Unit := do
  let here ← get
  let (hash, timestamp, urls) ←
    prepareStamp session here.tree configurationFile file source calendars
  let stamping := timestamp.stamp session.clock session.transport 0 urls
  note stamping.log
  if stamping.count = 0 then
    throw (.notAccepted file)
  else
    let digest ← Change.within Workspace.store Workspace.withStore
      (modifyGet (·.save stamping.timestamp))
    noteSaved digest
    print
      ["Timestamp submitted to " ++ toString stamping.count ++ " calendar(s)",
       "Digest: " ++ digest.toHex,
       "Hash:   " ++ Hex.encode hash]

/-! ## Updating -/

/-- How far an update of stored timestamps has come. -/
structure Progress where
  /-- How many requests have been sent. -/
  sent : Nat := 0
  /-- How many timestamps were upgraded. -/
  upgraded : Nat := 0
  /-- What has been printed. -/
  printed : List String := []
  log : List Event := []
  store : Store
  /-- The digests under which timestamps were saved. -/
  saved : List Digest := []

/-- Update one stored timestamp, unless nothing in it waits. -/
def updateTarget (session : Session) (progress : Progress) (target : Digest × Timestamp) :
    Progress :=
  let (digest, timestamp) := target
  if timestamp.hasPending then
    let updating := timestamp.update session.transport progress.sent
    { sent := progress.sent + updating.requests.length
      upgraded := progress.upgraded + if updating.upgraded then 1 else 0
      printed := progress.printed ++
        [digest.toHex ++ "  " ++ statusSummary updating.timestamp]
      log := progress.log ++ updating.log
      store :=
        if updating.upgraded then (progress.store.save updating.timestamp).2
        else progress.store
      saved :=
        if updating.upgraded then progress.saved ++ [updating.timestamp.digestHash]
        else progress.saved }
  else
    progress

/-- The timestamps to update. -/
def updateTargets (store : Store) (digest : Option String) :
    Except Failure (List (Digest × Timestamp)) :=
  match digest with
  | some text => (fun target => [target]) <$> loadTimestamp store text
  | none => store.list.mapError Failure.store

/-- Complete pending attestations of stored timestamps. -/
def update (session : Session) (configurationFile : Option String) (digest : Option String) :
    Job Unit := do
  let here ← get
  let targets ← updateTargets here.store digest
  let _ ← loadConfiguration session here.tree configurationFile
  let progress := targets.foldl (updateTarget session) { store := here.store }
  set { here with
    store := progress.store
    saved := here.saved ++ progress.saved
    log := here.log ++ progress.log }
  print (progress.printed ++ ["Upgraded " ++ toString progress.upgraded ++ " timestamp(s)"])

/-! ## Looking -/

/-- Show a timestamp. -/
def inspect (digest : String) : Job Unit := do
  let here ← get
  let digest ← (Digest.ofHex digest).mapError Failure.chain
  let text ← (here.store.viewText digest).mapError Failure.store
  print [text]

/-- The lines about one timestamp in a list. -/
def listEntry (digest : Digest) (timestamp : Timestamp) : List String :=
  ["Digest:  " ++ digest.toHex, "Hash:    " ++ Hex.encode timestamp.hash] ++
    (if timestamp.source = "" then [] else ["Source:  " ++ timestamp.source]) ++
    ["Status:  " ++ statusSummary timestamp, ""]

/-- List all timestamps. -/
def list : Job Unit := do
  let here ← get
  let stored ← here.store.list.mapError Failure.store
  if stored.isEmpty then
    print ["No stored timestamps"]
  else
    print (["Stored timestamps (" ++ toString stored.length ++ ")", ""] ++
      stored.flatMap fun (digest, timestamp) => listEntry digest timestamp)

/-! ## Records -/

/-- Write out a timestamp's record. -/
def exportRecord (digest : String) (output : Option String) : Job Unit := do
  let here ← get
  let (_, timestamp) ← loadTimestamp here.store digest
  match output with
  | some name =>
    Change.within Workspace.tree Workspace.withTree
      ((FileTree.writing name timestamp.toBytes).mapError Failure.unwritable)
    print ["Timestamp exported to " ++ name]
  | none => print [Hex.encode timestamp.toBytes]

/-- Take in a timestamp's record. -/
def importRecord (file : String) : Job Unit := do
  let here ← get
  let bytes ← (here.tree.read file).mapError (Failure.unreadable file)
  let digest ← Change.within Workspace.store Workspace.withStore
    ((Store.importing bytes).mapError Failure.chain)
  noteSaved digest
  print ["Timestamp imported successfully", "Digest: " ++ digest.toHex]

/-! ## All commands -/

/-- What a command does. -/
def Command.job (session : Session) (configurationFile : Option String) : Command → Job Unit
  | .stamp file source calendars =>
    CommandLine.stamp session configurationFile file source calendars
  | .update digest => CommandLine.update session configurationFile digest
  | .inspect digest => CommandLine.inspect digest
  | .list => CommandLine.list
  | .exportRecord digest output => CommandLine.exportRecord digest output
  | .importRecord file => CommandLine.importRecord file

/-- What comes of a command: whether it fails, and what it leaves behind. -/
structure Report where
  result : Except Failure Unit
  left : Workspace

/-- Carry out a command. -/
def run (session : Session) (tree : FileTree) (store : Store)
    (configurationFile : Option String) (command : Command) : Report :=
  let (result, left) := (command.job session configurationFile).apply { tree, store }
  { result, left }

/-! ## What stays as it is -/

theorem steady_print (texts : List String) : Steady Workspace.lasting (print texts) :=
  fun _ => rfl

theorem total_print (texts : List String) : Total (print texts) := total_modify _

theorem steady_note (events : List Event) : Steady Workspace.lasting (note events) :=
  fun _ => rfl

theorem total_noteSaved (digest : Digest) : Total (noteSaved digest) := total_modify _

/-- Showing a timestamp changes nothing that lasts. -/
theorem steady_inspect (digest : String) : Steady Workspace.lasting (inspect digest) :=
  steady_get.bind fun _ => (steady_lift _).bind fun _ => (steady_lift _).bind fun _ =>
    steady_print _

/-- Listing all timestamps changes nothing that lasts. -/
theorem steady_list : Steady Workspace.lasting list := by
  refine steady_get.bind fun here => (steady_lift _).bind fun stored => ?_
  split
  · exact steady_print _
  · exact steady_print _

/-- Writing out a record leaves the store as it is. -/
theorem steady_exportRecord (digest : String) (output : Option String) :
    Steady Workspace.store (exportRecord digest output) := by
  refine steady_get.bind fun here => (steady_lift _).bind fun found => ?_
  rcases output with _ | name
  · exact fun _ => rfl
  · exact Steady.bind (fun _ => rfl) fun _ _ => rfl

/-- Writing out a record fails before a file is changed. -/
theorem atomic_exportRecord (digest : String) (output : Option String) :
    Atomic Workspace.lasting (exportRecord digest output) := by
  refine steady_get.bind_atomic fun here => (steady_lift _).bind_atomic fun found => ?_
  rcases output with _ | name
  · exact (steady_print _).atomic
  · have hwriting := (FileTree.atomic_writing name found.2.toBytes).mapError Failure.unwritable
    exact (hwriting.within fun _ => rfl).bind_total fun _ => total_print _

/-- Taking in a record fails before the store is changed. -/
theorem atomic_importRecord (file : String) : Atomic Workspace.lasting (importRecord file) := by
  refine steady_get.bind_atomic fun here => (steady_lift _).bind_atomic fun bytes => ?_
  have himporting := (Store.atomic_importing bytes).mapError Failure.chain
  exact (himporting.within fun _ => rfl).bind_total fun digest =>
    (total_noteSaved digest).bind fun _ => total_print _

/-- Stamping fails before the store is changed, although the log has been written
then. -/
theorem atomic_stamp (session : Session) (configurationFile : Option String) (file : String)
    (source : Option String) (calendars : List String) :
    Atomic Workspace.lasting (stamp session configurationFile file source calendars) := by
  refine steady_get.bind_atomic fun here => ?_
  refine (steady_lift _).bind_atomic fun (hash, timestamp, urls) => ?_
  refine (steady_note _).bind_atomic fun _ => ?_
  split
  · exact (steady_throw _).atomic
  · refine Total.atomic (((total_modifyGet _).within _ _).bind fun digest => ?_)
    exact (total_noteSaved digest).bind fun _ => total_print _

/-- An update fails before anything is sent or changed. -/
theorem atomic_update (session : Session) (configurationFile : Option String)
    (digest : Option String) :
    Atomic Workspace.lasting (update session configurationFile digest) := by
  refine steady_get.bind_atomic fun here => (steady_lift _).bind_atomic fun targets => ?_
  refine (steady_lift _).bind_atomic fun configuration => ?_
  exact ((total_set _).bind fun _ => total_print _).atomic

/-- A command that fails has changed neither files nor store. -/
theorem atomic_job (session : Session) (configurationFile : Option String) (command : Command) :
    Atomic Workspace.lasting (command.job session configurationFile) := by
  cases command with
  | stamp file source calendars =>
    exact atomic_stamp session configurationFile file source calendars
  | update digest => exact atomic_update session configurationFile digest
  | inspect digest => exact (steady_inspect digest).atomic
  | list => exact steady_list.atomic
  | exportRecord digest output => exact atomic_exportRecord digest output
  | importRecord file => exact atomic_importRecord file

/-- What a command that fails leaves behind is what it found. -/
theorem run_of_error {session : Session} {tree : FileTree} {store : Store}
    {configurationFile : Option String} {command : Command} {failure : Failure}
    (h : (run session tree store configurationFile command).result = .error failure) :
    (run session tree store configurationFile command).left.lasting = (tree, store, []) :=
  atomic_job session configurationFile command { tree, store } failure h

end CalendarStamp.CommandLine
