import CalendarStamp.CommandLine.Invocation

/-!
# Help

The text that explains the program or one of its commands: what it is for, how
it is called, and a table for each sort of word that it takes.
-/

namespace CalendarStamp.CommandLine

/-- The name that the program is called by. -/
def programName : String := "sst"

/-- What the program is for. -/
def programAbout : String := "SimpleStamp blockchain timestamp client"

/-- The lines of a table with two columns. -/
def tableLines (rows : List (String × String)) : List String :=
  let width := (rows.map fun row => row.1.length).foldl max 0
  rows.map fun (left, right) =>
    "  " ++ left ++ String.ofList (List.replicate (width - left.length) ' ') ++ "  " ++ right

/-- A table under a heading, after an empty line; nothing when it has no rows. -/
def titledTable (title : String) (rows : List (String × String)) : List String :=
  if rows = [] then [] else ["", title ++ ":"] ++ tableLines rows

/-- How an option is written. -/
def OptionSpec.synopsis (option : OptionSpec) : String :=
  let letter :=
    match option.short with
    | some c => "-" ++ String.singleton c ++ ", "
    | none => "    "
  let value :=
    match option.value with
    | some name => " <" ++ name ++ ">"
    | none => ""
  letter ++ "--" ++ option.long ++ value

/-- How an argument is written. -/
def ArgumentSpec.synopsis (argument : ArgumentSpec) : String :=
  (if argument.required then "<" ++ argument.name ++ ">" else "[" ++ argument.name ++ "]") ++
    if argument.repeatable then "..." else ""

/-- The rows that explain options. -/
def optionRows (options : List OptionSpec) : List (String × String) :=
  options.map fun option => (option.synopsis, option.about)

/-- The help about a command. -/
def CommandSpec.help (spec : CommandSpec) : String :=
  let hasOptions := spec.options.any fun option => option.long ≠ helpOption.long
  let usage := [programName, spec.name] ++ (if hasOptions then ["[OPTIONS]"] else []) ++
    spec.arguments.map ArgumentSpec.synopsis
  "\n".intercalate
    ([spec.about, "", "Usage: " ++ " ".intercalate usage] ++
      titledTable "Arguments"
        (spec.arguments.map fun argument => (argument.synopsis, argument.about)) ++
      titledTable "Options" (optionRows spec.options)) ++ "\n"

/-- The command that prints help, described like the others. -/
def helpSpec : CommandSpec :=
  { name := helpCommand
    options := []
    arguments :=
      [{ name := "COMMAND", required := false, repeatable := true,
         about := "Print help for the subcommand(s)" }]
    about := "Print this message or the help of the given subcommand(s)" }

/-- The help about the program. -/
def programHelp : String :=
  "\n".intercalate
    ([programAbout, "", "Usage: " ++ programName ++ " [OPTIONS] <COMMAND>"] ++
      titledTable "Commands"
        ((commandSpecs ++ [helpSpec]).map fun spec => (spec.name, spec.about)) ++
      titledTable "Options" (optionRows generalOptions)) ++ "\n"

/-- The help that was asked for. -/
def helpText (command : Option String) : String :=
  match command with
  | none => programHelp
  | some name =>
    match (commandSpecs ++ [helpSpec]).find? fun spec => spec.name = name with
    | some spec => spec.help
    | none => programHelp

end CalendarStamp.CommandLine
