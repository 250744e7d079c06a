import LetLang.Session
/-!
# The shell

The shell takes one line at a time. A line that is a command by itself is obeyed, unless input is
pending; any other line is input of the language, which is run as soon as no line is wanted to
continue it. Results are printed when their input has been run, also if a later part of it failed.
-/
namespace LetLang

structure Shell where
  session : Session
  /-- The lines of an unfinished input, each with a line break. -/
  pending : String
  /-- What is shown before the next line is read. -/
  prompt : String
  /-- The number of the first line of the input. -/
  firstLine : Nat
  /-- The number of lines of input so far. -/
  lineCount : Nat
  deriving DecidableEq, Repr

/-- How the shell answers a line. -/
inductive Shell.Outcome where
  | continues
  | stops
  | fails (fault : Fault)
  | exits
  deriving DecidableEq, Repr

structure Shell.Reply where
  shell : Shell
  printed : String
  outcome : Outcome
  deriving DecidableEq, Repr

namespace Shell

def intro : String :=
  "toylang interpreter :: Python backend\nType 'help' for more information."

def helpText : String :=
  "Welcome to the toylang interpreter!\n\n" ++
  "toylang is a small expression language with integers, booleans, unit '()', \n" ++
  "let-bindings, conditionals and curried first-class functions. End a line \n" ++
  "with '\\' to continue it on the next one.\n\n" ++
  "Try it out by typing 'let inc = |n| => n + 1'. This will bind a function to \n" ++
  "'inc'. Next, try typing 'inc(41)', giving '42' as the result."

/-- What the shell reads when its input has ended. -/
def endOfInput : String := "EOF"

inductive Command where
  | nothing
  | help
  | exit
  | endOfInput
  deriving DecidableEq, Repr

/-- The command that a line is, blanks at its ends aside. -/
def command? (line : String) : Option Command :=
  let word := Text.stripped line
  if word = "" then some .nothing
  else if word = "help" ∨ word = "?" then some .help
  else if word = "exit" then some .exit
  else if word = endOfInput then some .endOfInput
  else none

/-- The prompt for a new input. -/
def inputPrompt : String := "> "

/-- The prompt for a line that continues an input. -/
def continuationPrompt : String := ". "

def new (session : Session) : Shell :=
  { session, pending := "", prompt := inputPrompt, firstLine := 0, lineCount := 0 }

/-- Runs a source that is complete, and prints its results unless a failure escapes. -/
def runInput (colours : Bool) (limits : Limits) (shell : Shell) (source : String) : Reply :=
  let run := (shell.session.add source shell.firstLine).run limits
  match run.settle colours, run.fault with
  | (session, printed, .exits), _ => { shell := { shell with session }, printed, outcome := .exits }
  | (session, printed, .unwritten), _ =>
    { shell := { shell with session }, printed, outcome := .fails .numberTooLong }
  | (session, printed, .escapes), some fault =>
    { shell := { shell with session }, printed, outcome := .fails fault }
  | (session, printed, _), _ =>
    let results := session.printResults
    { shell := { shell with session := results.session }
      printed := printed ++ results.printed
      outcome :=
        match results.fault with
        | some fault => .fails fault
        | none => .continues }

/-- Notes a line of input: the shell after it, and the source that it completes if it asks for no
further line. -/
def note (shell : Shell) (line : String) : Shell × Option String :=
  let continuing := shell.pending ≠ ""
  let lineCount := shell.lineCount + 1
  let firstLine := if continuing then shell.firstLine else lineCount
  let (bare, continued) := Continuation.prepare line.toList continuing
  let source := shell.pending ++ String.ofList bare
  let shell := { shell with lineCount, firstLine }
  if continued then
    ({ shell with pending := source ++ "\n", prompt := continuationPrompt }, none)
  else ({ shell with pending := "", prompt := inputPrompt }, some source)

/-- Takes a line of input, and runs the source that it completes. -/
def input (colours : Bool) (limits : Limits) (shell : Shell) (line : String) : Reply :=
  match shell.note line with
  | (shell, none) => { shell, printed := "", outcome := .continues }
  | (shell, some source) => runInput colours limits shell source

/-- Obeys a command. -/
def obey (shell : Shell) : Command → Reply
  | .nothing => { shell, printed := "", outcome := .continues }
  | .help => { shell, printed := helpText ++ "\n", outcome := .continues }
  | .exit => { shell, printed := "", outcome := .stops }
  | .endOfInput => { shell, printed := "\n", outcome := .stops }

/-- The command in a line, which is not heeded while input is pending. -/
def heeded? (shell : Shell) (line : String) : Option Command :=
  if shell.pending = "" then command? line else none

/-- Answers a line. -/
def answer (colours : Bool) (limits : Limits) (shell : Shell) (line : String) : Reply :=
  match shell.heeded? line with
  | some command => shell.obey command
  | none => shell.input colours limits line

/-- Answers lines until one stops the shell, with the prompt before each of them. -/
def answerAll (colours : Bool) (limits : Limits) : Shell → List String → Reply
  | shell, [] => { shell, printed := "", outcome := .continues }
  | shell, line :: lines =>
    let reply := shell.answer colours limits line
    let printed := shell.prompt ++ reply.printed
    match reply.outcome with
    | .continues =>
      let rest := answerAll colours limits reply.shell lines
      { rest with printed := printed ++ rest.printed }
    | _ => { reply with printed }

end Shell
end LetLang
