import LetLang.Options
import LetLang.Shell
/-!
# The program

With a file name, the program runs the file, prints the values and then the report of a failure.
Without one it runs the shell on its standard input.
-/
namespace LetLang.Runner

/-- How the program ends. -/
inductive Ending where
  | returned
  | exited (status : Nat)
  /-- A failure left the program. -/
  | failed (fault : Fault)
  | failedToOpen (fault : OpenFault)
  deriving DecidableEq, Repr

/-- What a run of the program writes, and how it ends. -/
structure Outcome where
  output : String
  errors : String
  ending : Ending
  deriving DecidableEq, Repr

/-- The verdict on a failure as the end of the program. -/
def conclude (verdict : Verdict) (failure : Ending) : Ending :=
  match verdict with
  | .contained => .returned
  | .escapes => failure
  | .exits => .exited 1
  | .unwritten => .failed .numberTooLong

/-- Runs a file. The values come before the report, also when something failed; a value that
cannot be written is the failure that counts. -/
def runFile (colours : Bool) (limits : Limits) (files : Files) (path : String) (showTree : Bool) :
    Outcome :=
  match Session.start colours files (.new true) path false showTree with
  | .error (fault, reporter) =>
    let settled := reporter.settle colours (some fault.interruption)
    { output := settled.printed
      errors := ""
      ending := conclude settled.verdict (.failedToOpen fault) }
  | .ok (session, warning) =>
    let run := session.run limits
    let results := run.session.printResults
    let fault := results.fault.or run.fault
    let settled := results.session.reporter.settle colours (fault.map Fault.interruption)
    { output := warning ++ run.printed ++ results.printed ++ settled.printed
      errors := ""
      ending :=
        match fault with
        | none => .returned
        | some fault => conclude settled.verdict (.failed fault) }

/-- Ends a run of the shell. -/
def endShell (colours : Bool) (reply : Shell.Reply) : Outcome :=
  match reply.outcome with
  | .continues | .stops => { output := reply.printed, errors := "", ending := .returned }
  | .exits => { output := reply.printed, errors := "", ending := .exited 1 }
  | .fails fault =>
    let settled := reply.shell.session.reporter.settle colours (some fault.interruption)
    { output := reply.printed ++ settled.printed
      errors := ""
      ending := conclude settled.verdict (.failed fault) }

/-- The shell at its beginning. -/
def newShell (showTree : Bool) : Shell :=
  let reporter := { (Reporter.new true).registerFile typedInput with fatal := false }
  .new (.new reporter typedInput showTree)

/-- The lines that the shell reads from an input. At the end of the input it reads the same word
again and again: the first may end a pending input, the second finds none. -/
def shellLines (input : String) : List String :=
  (Text.heldLines input.toList).map String.ofList ++ [Shell.endOfInput, Shell.endOfInput]

/-- Runs the shell on an input. -/
def runShell (colours : Bool) (limits : Limits) (input : String) (showTree : Bool) : Outcome :=
  let outcome :=
    endShell colours ((newShell showTree).answerAll colours limits (shellLines input))
  { outcome with output := Shell.intro ++ "\n" ++ outcome.output }

/-- Runs the program with the given arguments, files and standard input. -/
def run (colours : Bool) (limits : Limits) (files : Files) (arguments : List String)
    (input : String) : Outcome :=
  match Options.parse arguments with
  | .error fault => { output := "", errors := fault.text, ending := .exited 2 }
  | .ok .help => { output := Options.helpText, errors := "", ending := .exited 0 }
  | .ok (.run options) =>
    match options.file with
    | some path => runFile colours limits files path options.showTree
    | none => runShell colours limits input options.showTree

end LetLang.Runner
