import CalendarStamp.FileTree

/-!
# Why a store cannot be opened

The files of a store may be out of reach, damaged, or written for a store that
is laid out differently.
-/

namespace CalendarStamp

/-- Why a store cannot be opened. -/
inductive StoreFault
  /-- A file or directory of the store is out of reach. -/
  | file (cause : FileError)
  /-- A file of the store does not hold what it should.  In the log, the place
  of what was looked for is known. -/
  | damaged (place : Option Nat)
  /-- The layout is no text, as it was in the first versions. -/
  | ancient
  /-- What is logged was compressed, or was not, unlike now. -/
  | compression (found used : Bool)
  /-- The log was divided into segments of another size. -/
  | segmentSize (found : Nat)
  /-- The log was written in another version of its format. -/
  | version (found used : Nat × Nat)
deriving DecidableEq

namespace StoreFault

/-- The place of something in the log, as messages show it. -/
def placeText : Option Nat → String
  | some place => "Some(Inline(" ++ toString place ++ "))"
  | none => "None"

/-- A version with a point between its parts. -/
def versionText (version : Nat × Nat) : String :=
  toString version.1 ++ "." ++ toString version.2

/-- The word for a truth value. -/
def truthText (value : Bool) : String :=
  if value then "true" else "false"

/-- The sentence that reports the fault. -/
def message : StoreFault → String
  | file cause => "IO error: " ++ cause.message
  | damaged place =>
    "Read corrupted data at file offset " ++ placeText place ++ " backtrace ()"
  | ancient =>
    "Unsupported: failed to open database that may have been created using a sled version " ++
      "earlier than 0.29"
  | compression found used =>
    "Unsupported: cannot change compression values across restarts. old value of " ++
      "use_compression loaded from disk: " ++ truthText found ++ ", currently set value: " ++
      truthText used ++ "."
  | segmentSize found =>
    "Unsupported: cannot change the io buffer size across restarts. please change it back to " ++
      toString found
  | version found used =>
    "Unsupported: This database was created using pagecache version " ++ versionText found ++
      ", but our pagecache version is " ++ versionText used ++
      ". Please perform an upgrade using the sled::Db::export and sled::Db::import methods."

end StoreFault

end CalendarStamp
