import CalendarStamp.CommandLine.Call
import Std.Time.DateTime.Timestamp

/-!
# The program

The outer layer: it looks up the files that a command line names, and those of
the store, calls the library, and writes what has changed.  It has no connection
to calendars, so every request is answered by a failure.
-/

namespace CalendarStamp.Program

open CommandLine

/-- The name of what parts lead to from the root. -/
def nameOf (parts : List String) : String :=
  "/" ++ "/".intercalate parts

/-- The parts of the working directory. -/
def workingParts : IO (List String) := do
  let current ← IO.currentDir
  return ((Text.split '/' current.toString.toList).map String.ofList).filter (· ≠ "")

/-- Whether there is a directory with a name. -/
def isDirectory (name : String) : IO Bool := do
  try
    (← IO.FS.realPath name).isDir
  catch _ =>
    return false

/-- The content of a file, if there is one. -/
def fileContent (name : String) : IO (Option Bytes) := do
  try
    let content ← IO.FS.readBinFile name
    return some content.data.toList
  catch _ =>
    return none

/-- Add to a tree what lies along a name: the directories, and the file at its end. -/
def lookAlong (tree : FileTree) (current : List String) : List String → IO FileTree
  | [] => return tree
  | part :: rest => do
    let next :=
      if part = "." then current
      else if part = ".." then current.dropLast
      else current ++ [part]
    if ← isDirectory (nameOf next) then
      lookAlong { tree with directories := next :: tree.directories } next rest
    else
      match ← fileContent (nameOf next) with
      | some content => return tree.setContent next content
      | none => return tree

/-- The names of files that an invocation looks at. -/
def namesOf (invocation : Invocation) : List String :=
  let names :=
    match invocation.command with
    | .stamp file _ _ => [file]
    | .importRecord file => [file]
    | .exportRecord _ output => output.toList
    | .update _ | .inspect _ | .list => []
  invocation.storageDirectory :: (invocation.configuration.toList ++ names)

/-- Add to a tree what a name leads to. -/
def lookFor (tree : FileTree) (name : String) : IO FileTree :=
  match tree.route name with
  | .ok route => lookAlong tree route.start route.parts
  | .error _ => return tree

/-- Add to a tree what is in a directory, but not deeper. -/
def lookInto (tree : FileTree) (name : String) : IO FileTree := do
  if ← isDirectory name then
    (← (← IO.FS.realPath name).readDir).foldlM (fun tree entry =>
      lookFor tree (FileTree.nameWithin name entry.fileName)) tree
  else
    return tree

/-- The part of the file system that an invocation looks at. -/
def lookAround (invocation : Invocation) : IO FileTree := do
  let directory := invocation.storageDirectory
  let tree ← (namesOf invocation).foldlM lookFor (FileTree.fresh (← workingParts))
  let tree ← lookInto tree directory
  lookInto tree (FileTree.nameWithin directory Store.Directory.valuesName)

/-- Write what has changed in a tree. -/
def keep (before after : FileTree) : IO Unit := do
  for parts in after.directories.reverse do
    if ¬ before.isDirectory parts then
      IO.FS.createDirAll (nameOf parts)
  for (parts, _) in before.files do
    if (after.content? parts).isNone then
      IO.FS.removeFile (nameOf parts)
  for (parts, content) in after.files do
    if before.content? parts ≠ some content then
      IO.FS.writeBinFile (nameOf parts) ⟨content.toArray⟩

/-- The time in seconds, as far as it fits. -/
def currentSeconds : IO UInt32 := do
  let seconds := (← Std.Time.Timestamp.now).toSecondsSinceUnixEpoch.val
  return UInt32.ofNat (min seconds.toNat (1 <<< 32 - 1))

/-- Random bytes for a new timestamp. -/
def freshNonce : IO Nonce := do
  let bytes ← IO.getRandomBytes 16
  match Nonce.ofBytes bytes.data.toList with
  | .ok nonce => return nonce
  | .error e => throw (.userError e.message)

/-- Print what came of a call. -/
def present (verbose : Bool) (ending : Ending) : IO UInt32 := do
  for event in ending.log do
    if verbose || event.level ≠ .debug then
      IO.println (event.level.name ++ " " ++ event.text)
  IO.print ending.output
  IO.eprint ending.errors
  return UInt32.ofNat ending.code

/-- Carry out an invocation in the real surroundings. -/
def carryOut (invocation : Invocation) : IO UInt32 := do
  let session : Session :=
    { calendarList := ← IO.getEnv "SST_CALENDARS"
      now := ← currentSeconds
      nonce := ← freshNonce
      transport := fun _ request => .error (.network ("no connection for " ++ request.url)) }
  let before ← lookAround invocation
  let (ending, after) := invoke session before invocation
  keep before after
  present invocation.verbose ending

end CalendarStamp.Program

open CalendarStamp CalendarStamp.CommandLine CalendarStamp.Program in
/-- Run the program with the words of the command line. -/
def main (words : List String) : IO UInt32 := do
  match Invocation.ofWords words with
  | .ok invocation => carryOut invocation
  | .error reason => present false (.ofNoInvocation reason)
