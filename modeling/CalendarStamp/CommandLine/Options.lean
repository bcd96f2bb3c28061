/-!
# Options on a command line

A command line is a list of words.  Words that start with a dash name options,
whose values stand in the same word or the next one; all others are arguments.
After a word of two dashes alone every word is an argument.

Words are taken one after the other.  An option with a value in the next word
is completed only when another option or the end is reached, so a request for
help after it comes too late if its value is at fault.
-/

namespace CalendarStamp.CommandLine

/-- An option that a command takes. -/
structure OptionSpec where
  /-- The name after two dashes. -/
  long : String
  /-- The letter after one dash. -/
  short : Option Char := none
  /-- What the value is called, for options that take one. -/
  value : Option String := none
  /-- Whether the option may be given more than once. -/
  repeatable : Bool := false
  /-- Whether the value names a file and so must not be empty. -/
  isPath : Bool := false
  /-- What the option is for. -/
  about : String
deriving DecidableEq

/-- An argument that a command takes. -/
structure ArgumentSpec where
  /-- What the argument is called. -/
  name : String
  /-- Whether the argument must be given. -/
  required : Bool
  /-- Whether the argument is described as one that may be repeated. -/
  repeatable : Bool := false
  /-- Whether the argument names a file and so must not be empty. -/
  isPath : Bool := false
  /-- What the argument is for. -/
  about : String
deriving DecidableEq

/-- Why a command line is not carried out. -/
inductive Refusal
  /-- Help was asked for. -/
  | help
  /-- The words do not follow the rules. -/
  | usage
deriving DecidableEq

/-- What has been taken from a command line so far. -/
structure Scan where
  /-- The options given, with their values. -/
  given : List (String × String) := []
  /-- The arguments given. -/
  arguments : List String := []
  /-- An option whose value stands in a word of its own, and the value if it
  has been reached. -/
  waiting : Option (OptionSpec × Option String) := none
  /-- Whether only arguments can follow. -/
  onlyArguments : Bool := false

namespace Scan

/-- Add an option with its value. -/
def give (scan : Scan) (option : OptionSpec) (value : String) : Except Refusal Scan :=
  if option.isPath && value = "" then
    .error .usage
  else if !option.repeatable && (scan.given.any fun entry => entry.1 = option.long) then
    .error .usage
  else
    .ok { scan with given := scan.given ++ [(option.long, value)] }

/-- Complete an option whose value stands in a word of its own. -/
def complete (scan : Scan) : Except Refusal Scan :=
  match scan.waiting with
  | none => .ok scan
  | some (_, none) => .error .usage
  | some (option, some value) => { scan with waiting := none }.give option value

/-- Add an argument. -/
def addArgument (specs : List ArgumentSpec) (scan : Scan) (word : String) :
    Except Refusal Scan := do
  let scan ← scan.complete
  match specs[scan.arguments.length]? with
  | some spec =>
    if spec.isPath && word = "" then throw .usage
    else return { scan with arguments := scan.arguments ++ [word] }
  | none => throw .usage

/-- Take an option without a value. -/
def flag (scan : Scan) (option : OptionSpec) : Except Refusal Scan := do
  let scan ← scan.complete
  if option.long = "help" then throw .help else scan.give option ""

/-- Take an option that is named after two dashes. -/
def long (options : List OptionSpec) (scan : Scan) (word : List Char) : Except Refusal Scan := do
  let name := String.ofList (word.takeWhile (· ≠ '='))
  let attached := word.dropWhile (· ≠ '=')
  match options.find? fun option => option.long = name with
  | none => throw .usage
  | some option =>
    match option.value, attached with
    | none, [] => scan.flag option
    | none, _ => throw .usage
    | some _, [] => return { ← scan.complete with waiting := some (option, none) }
    | some _, _ :: value => (← scan.complete).give option (String.ofList value)

/-- Take options that are named by letters after one dash. -/
def short (options : List OptionSpec) (scan : Scan) : List Char → Except Refusal Scan
  | [] => .ok scan
  | letter :: rest => do
    match options.find? fun option => option.short = some letter with
    | none => throw .usage
    | some option =>
      if option.value.isNone then
        short options (← scan.flag option) rest
      else
        match rest with
        | [] => return { ← scan.complete with waiting := some (option, none) }
        | '=' :: value => (← scan.complete).give option (String.ofList value)
        | value => (← scan.complete).give option (String.ofList value)

/-- Whether the next word is the value of an option. -/
def expectsValue (scan : Scan) : Bool :=
  match scan.waiting with
  | some (_, none) => true
  | _ => false

/-- Take one word. -/
def word (options : List OptionSpec) (specs : List ArgumentSpec) (scan : Scan) (word : String) :
    Except Refusal Scan :=
  if scan.onlyArguments then
    scan.addArgument specs word
  else
    match word.toList with
    | ['-', '-'] => .ok { scan with onlyArguments := true }
    | '-' :: '-' :: rest => scan.long options rest
    | '-' :: letter :: rest => scan.short options (letter :: rest)
    | _ =>
      match scan.waiting with
      | some (option, none) => .ok { scan with waiting := some (option, some word) }
      | _ => scan.addArgument specs word

/-- Take words up to the first that names a command; return what follows it. -/
def upToCommand (options : List OptionSpec) (commands : List String) (scan : Scan) :
    List String → Except Refusal (Scan × String × List String)
  | [] => .error .usage
  | word :: rest =>
    if !scan.onlyArguments && !scan.expectsValue && commands.contains word then
      .ok (scan, word, rest)
    else
      match scan.word options [] word with
      | .error refusal => .error refusal
      | .ok scan => upToCommand options commands scan rest

/-- Take all words. -/
def all (options : List OptionSpec) (specs : List ArgumentSpec) (words : List String) :
    Except Refusal Scan := do
  let scan ← words.foldlM (word options specs) {}
  let scan ← scan.complete
  if (specs.drop scan.arguments.length).any ArgumentSpec.required then
    throw .usage
  else
    return scan

/-- The value of an option that is given at most once. -/
def value? (scan : Scan) (long : String) : Option String :=
  (scan.given.find? fun entry => entry.1 = long).map Prod.snd

/-- All values of an option, in order. -/
def values (scan : Scan) (long : String) : List String :=
  (scan.given.filter fun entry => entry.1 = long).map Prod.snd

end Scan

end CalendarStamp.CommandLine
