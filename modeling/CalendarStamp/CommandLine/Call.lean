import CalendarStamp.CommandLine.Help
import CalendarStamp.CommandLine.Run
import CalendarStamp.Store.Directory

/-!
# Calling the program

A call opens a store, carries out one command, and writes down what it saved.
Between two calls only the tree of files remains.

Main results:

- Theorem `invoke_of_error`: when the command of a call fails, only the opening of
  the store has changed files.
-/

namespace CalendarStamp.CommandLine

/-- What a call of the program ends with. -/
structure Ending where
  code : Nat
  output : String := ""
  errors : String := ""
  log : List Event := []

/-- The ending of a call that asks for help or does not follow the rules. -/
def Ending.ofNoInvocation : NoInvocation → Ending
  | .help command => { code := 0, output := helpText command }
  | .usage => { code := 2, errors := programHelp }

/-- The ending of a call whose store cannot be opened. -/
def Ending.ofFault (fault : StoreFault) : Ending :=
  { code := 1, errors := (Failure.store (.unopenable fault)).report }

/-- The ending of a call whose command is carried out. -/
def Ending.ofReport (report : Report) : Ending :=
  { code := if report.result.isOk then 0 else 1
    output := report.left.output
    errors := match report.result with
      | .ok _ => ""
      | .error failure => failure.report
    log := report.left.log }

/-- Carry out an invocation in a tree of files. -/
def invoke (session : Session) (tree : FileTree) (invocation : Invocation) : Ending × FileTree :=
  match Store.Directory.openIn tree invocation.storageDirectory with
  | (tree, .error fault) => (.ofFault fault, tree)
  | (tree, .ok opened) =>
    let report := run session tree opened.store invocation.configuration invocation.command
    let left := report.left
    (.ofReport report, opened.append left.tree (left.store.entriesAt left.saved))

/-- Call the program with the words of a command line. -/
def call (session : Session) (tree : FileTree) (words : List String) : Ending × FileTree :=
  match Invocation.ofWords words with
  | .ok invocation => invoke session tree invocation
  | .error reason => (.ofNoInvocation reason, tree)

/-- When the command of a call fails, only the opening of the store has changed files. -/
theorem invoke_of_error {session : Session} {tree opening : FileTree} {invocation : Invocation}
    {opened : Store.Directory.Opened} {failure : Failure}
    (hopens : Store.Directory.openIn tree invocation.storageDirectory = (opening, .ok opened))
    (hfails : (run session opening opened.store invocation.configuration
      invocation.command).result = .error failure) :
    (invoke session tree invocation).2 = opening := by
  have hleft := run_of_error hfails
  simp only [Workspace.lasting, Prod.mk.injEq] at hleft
  obtain ⟨htree, -, hsaved⟩ := hleft
  simp [invoke, hopens, htree, hsaved, Store.entriesAt, Store.Directory.Opened.append]

end CalendarStamp.CommandLine
