import CalendarStamp.CommandLine.Options

/-!
# What the program is asked to do

The commands with their options and arguments, and how a command line is read
as one of them.
-/

namespace CalendarStamp.CommandLine

/-! ## Commands -/

/-- What to do. -/
inductive Command
  /-- Timestamp a file. -/
  | stamp (file : String) (source : Option String) (calendars : List String)
  /-- Complete pending attestations, of one timestamp or of all. -/
  | update (digest : Option String)
  /-- Show a timestamp. -/
  | inspect (digest : String)
  /-- List all timestamps. -/
  | list
  /-- Write out a timestamp's record. -/
  | exportRecord (digest : String) (output : Option String)
  /-- Take in a timestamp's record. -/
  | importRecord (file : String)
deriving DecidableEq

/-- A command with the options that hold for every command. -/
structure Invocation where
  storageDirectory : String
  configuration : Option String
  verbose : Bool
  command : Command
deriving DecidableEq

/-! ## What commands take -/

/-- A command's name, what it takes and what it is for. -/
structure CommandSpec where
  name : String
  options : List OptionSpec
  arguments : List ArgumentSpec
  about : String

/-- The option that asks for help. -/
def helpOption : OptionSpec :=
  { long := "help", short := some 'h', about := "Print help" }

/-- The options in front of the command. -/
def generalOptions : List OptionSpec :=
  [{ long := "storage-dir", short := some 'd', value := some "STORAGE_DIR", isPath := true,
     about := "Storage directory [default: .sst]" },
   { long := "config", short := some 'c', value := some "CONFIG", isPath := true,
     about := "Calendar configuration file (TOML)" },
   { long := "verbose", short := some 'v', about := "Log debug output" },
   helpOption]

/-- The argument that names a timestamp. -/
def digestArgument : ArgumentSpec :=
  { name := "DIGEST", required := true, about := "Digest in hex format" }

/-- All commands. -/
def commandSpecs : List CommandSpec :=
  [{ name := "stamp"
     about := "Timestamp a file"
     arguments :=
       [{ name := "FILE", required := true, isPath := true, about := "File to timestamp" }]
     options :=
       [{ long := "source", value := some "SOURCE",
          about := "Source description mixed into the digest hash" },
        { long := "calendar", value := some "CALENDARS", repeatable := true,
          about := "Calendar URL (repeatable, replaces the configured calendars)" },
        helpOption] },
   { name := "update"
     about := "Upgrade pending attestations"
     arguments :=
       [{ name := "DIGEST", required := false,
          about := "Digest in hex format (defaults to every stored timestamp)" }]
     options := [helpOption] },
   { name := "show"
     about := "Show details of a timestamp"
     arguments := [digestArgument]
     options := [helpOption] },
   { name := "list"
     about := "List all stored timestamps"
     arguments := []
     options := [helpOption] },
   { name := "export"
     about := "Export a timestamp's binary record"
     arguments := [digestArgument]
     options :=
       [{ long := "output", short := some 'o', value := some "OUTPUT", isPath := true,
          about := "Output file (hex to stdout otherwise)" },
        helpOption] },
   { name := "import"
     about := "Import a binary record"
     arguments :=
       [{ name := "FILE", required := true, isPath := true, about := "Input file" }]
     options := [helpOption] }]

/-- The name of the command that prints help. -/
def helpCommand : String := "help"

/-! ## Reading a command line -/

/-- The command that a name and what was taken after it stand for. -/
def commandOf (name : String) (scan : Scan) : Option Command :=
  match name, scan.arguments with
  | "stamp", [file] => some (.stamp file (scan.value? "source") (scan.values "calendar"))
  | "update", arguments => some (.update arguments.head?)
  | "show", [digest] => some (.inspect digest)
  | "list", [] => some .list
  | "export", [digest] => some (.exportRecord digest (scan.value? "output"))
  | "import", [file] => some (.importRecord file)
  | _, _ => none

/-- Why there is no invocation: the rules were not followed, or help was asked
for about a command or about the program. -/
inductive NoInvocation
  | usage
  | help (command : Option String)
deriving DecidableEq

/-- How a refusal while reading the words after a command is reported. -/
def NoInvocation.ofRefusal (command : Option String) : Refusal → NoInvocation
  | .help => .help command
  | .usage => .usage

/-- What the words after `help` ask for. -/
def helpTopic : List String → NoInvocation
  | [] => .help none
  | [name] =>
    if name = helpCommand || (commandSpecs.any fun spec => spec.name = name) then
      .help (some name)
    else
      .usage
  | _ => .usage

/-- Read a command line. -/
def Invocation.ofWords (words : List String) : Except NoInvocation Invocation := do
  let names := commandSpecs.map CommandSpec.name ++ [helpCommand]
  let (scan, name, rest) ←
    (Scan.upToCommand generalOptions names {} words).mapError (.ofRefusal none)
  match commandSpecs.find? fun spec => spec.name = name with
  | none => throw (helpTopic rest)
  | some spec =>
    let after ← (Scan.all spec.options spec.arguments rest).mapError (.ofRefusal (some name))
    let general ← scan.complete.mapError (.ofRefusal none)
    match commandOf name after with
    | none => throw .usage
    | some command =>
      return {
        storageDirectory := (general.value? "storage-dir").getD ".sst"
        configuration := general.value? "config"
        verbose := (general.value? "verbose").isSome
        command }

end CalendarStamp.CommandLine
