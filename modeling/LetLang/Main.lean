import LetLang.Runner
/-!
# Command line

Runs the program on the arguments, files and standard streams of the process. Reports are coloured
when the standard output is a terminal.
-/
namespace LetLang

/-- The contents of a file, if it can be read. -/
def readBytes (path : String) : IO (Option (List UInt8)) := do
  try
    return some (← IO.FS.readBinFile path).toList
  catch _ => return none

/-- A line of the standard input without its line break, or the word for its end. -/
def readLine (input : IO.FS.Stream) : IO String := do
  let line ← input.getLine
  if line.isEmpty then return Shell.endOfInput
  return String.ofList (Text.dropWhileRight (· = '\n') line.toList)

/-- What is said of a failure that leaves the program. -/
def failureText : Interruption → String
  | .failure name message => name ++ ": " ++ message
  | .notice notice => notice.message
  | .keyboard | .recursion | .exit => ""

/-- Writes what a run printed, and gives the status of the process. -/
def finish (outcome : Runner.Outcome) : IO UInt32 := do
  IO.print outcome.output
  IO.eprint outcome.errors
  match outcome.ending with
  | .returned => return 0
  | .exited status => return status.toUInt32
  | .failed fault => do
    IO.eprintln (failureText fault.interruption)
    return 1
  | .failedToOpen fault => do
    IO.eprintln (failureText fault.interruption)
    return 1

/-- Answers lines until the shell stops. -/
partial def converse (colours : Bool) (input : IO.FS.Stream) (shell : Shell) : IO UInt32 := do
  IO.print shell.prompt
  (← IO.getStdout).flush
  let reply := shell.answer colours .standard (← readLine input)
  match reply.outcome with
  | .continues => do
    IO.print reply.printed
    converse colours input reply.shell
  | _ => finish (Runner.endShell colours reply)

/-- Runs the program with the given arguments. -/
def runProcess (arguments : List String) : IO UInt32 := do
  let colours ← (← IO.getStdout).isTty
  match Options.parse arguments with
  | .ok (.run { file := none, showTree }) => do
    IO.println Shell.intro
    converse colours (← IO.getStdin) (Runner.newShell showTree)
  | .ok (.run { file := some path, .. }) => do
    let contents ← readBytes path
    let files : Files := fun name => if name = path then contents else none
    finish (Runner.run colours .standard files arguments "")
  | _ => finish (Runner.run colours .standard (fun _ => none) arguments "")

end LetLang

def main (arguments : List String) : IO UInt32 :=
  LetLang.runProcess arguments
