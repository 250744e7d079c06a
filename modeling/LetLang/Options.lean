import LetLang.Text.Digit
import LetLang.Text.Quoted
/-!
# Command-line options

The program takes at most one file name and two options, one that shows a tree before each value
and one that asks for help. A long option may be shortened as long as it stays unambiguous, `--`
ends the options, and a negative number or a single dash is no option.
-/
namespace LetLang

structure Options where
  file : Option String
  showTree : Bool
  deriving DecidableEq, Repr

namespace Options

def programName : String := "toylang"

def usage : String :=
  "usage: " ++ programName ++ " [-h] [--ast] [file]\n"

def helpText : String :=
  usage ++
  "\npositional arguments:\n" ++
  "  file        file to interpret and run (if empty, goes to command-line mode)\n" ++
  "\noptions:\n" ++
  "  -h, --help  show this help message and exit\n" ++
  "  --ast       print the syntax tree of each expression before its value\n"

/-- Why arguments are refused. -/
inductive Fault where
  | ambiguous (argument : String) (options : List String)
  | ignoredArgument (option argument : String)
  | unrecognized (arguments : List String)
  deriving DecidableEq, Repr

def Fault.message : Fault → String
  | ambiguous argument options =>
    "ambiguous option: " ++ argument ++ " could match " ++ ", ".intercalate options
  | ignoredArgument option argument =>
    "argument " ++ option ++ ": ignored explicit argument " ++ Text.quoted argument
  | unrecognized arguments => "unrecognized arguments: " ++ " ".intercalate arguments

/-- What a refusal prints. -/
def Fault.text (fault : Fault) : String :=
  usage ++ programName ++ ": error: " ++ fault.message ++ "\n"

inductive Switch where
  | help
  | tree
  deriving DecidableEq, Repr

/-- The switch as error messages call it. -/
def Switch.name : Switch → String
  | help => "-h/--help"
  | tree => "--ast"

/-- The long spellings of the switches. -/
def spellings : List (String × Switch) :=
  [("--help", .help), ("--ast", .tree)]

/-- What an argument is. -/
inductive Word where
  | plain (text : String)
  | separator
  | switch (switch : Switch)
  /-- A switch with an argument that it does not take. -/
  | surplus (switch : Switch) (argument : String)
  | unknown (text : String)
  deriving DecidableEq, Repr

/-- Whether the text is a dash and a number in decimal digits, perhaps with a point in it, and
perhaps with a line feed after it. -/
def isNegativeNumber (cs : List Char) : Bool :=
  match if cs.getLast? = some '\n' then cs.dropLast else cs with
  | '-' :: rest =>
    let whole := rest.takeWhile Text.isDecimal
    match rest.dropWhile Text.isDecimal with
    | [] => whole ≠ []
    | '.' :: fraction => fraction ≠ [] && fraction.all Text.isDecimal
    | _ => false
  | _ => false

/-- The part before the first `=` and the part after it. -/
def splitAssignment (cs : List Char) : List Char × Option (List Char) :=
  match cs.dropWhile (· ≠ '=') with
  | [] => (cs, none)
  | _ :: value => (cs.takeWhile (· ≠ '='), some value)

/-- What an argument is that begins with two dashes: a switch, spelled out or shortened, perhaps
with an argument after `=`. -/
def longWord (argument : String) : Except Fault Word :=
  let (start, value) := splitAssignment argument.toList
  match spellings.filter fun (spelling, _) => start.isPrefixOf spelling.toList, value with
  | [], _ => .ok (if argument.toList.contains ' ' then .plain argument else .unknown argument)
  | [(_, switch)], none => .ok (.switch switch)
  | [(_, switch)], some value => .ok (.surplus switch (String.ofList value))
  | several, _ => .error (.ambiguous argument (several.map (·.1)))

/-- What the short switch is with letters after it: more of the same switch, then an argument, which
is refused. This is how runs of the program were seen to answer; releases of option readers differ
here, and later ones obey the switch before they look at letters that are not switches. -/
def shortWord (letters : List Char) : Word :=
  match letters.dropWhile (· = 'h') with
  | [] => .switch .help
  | rest => .surplus .help (String.ofList rest)

/-- What an argument is before the options have ended. -/
def classify (argument : String) : Except Fault Word :=
  match argument.toList with
  | ['-'] => .ok (.plain argument)
  | ['-', '-'] => .ok .separator
  | '-' :: '-' :: _ => longWord argument
  | ['-', 'h', '='] => .ok (.surplus .help "")
  | '-' :: 'h' :: '=' :: letters => .ok (shortWord letters)
  | '-' :: 'h' :: letters => .ok (shortWord letters)
  | '-' :: rest =>
    .ok
      (if isNegativeNumber ('-' :: rest) || rest.contains ' ' then .plain argument
      else .unknown argument)
  | _ => .ok (.plain argument)

/-- What the arguments are; after the separator, all are plain. -/
def classifyAll : List String → Except Fault (List Word)
  | [] => .ok []
  | argument :: rest =>
    match classify argument with
    | .error fault => .error fault
    | .ok .separator => .ok (.separator :: rest.map .plain)
    | .ok word =>
      match classifyAll rest with
      | .error fault => .error fault
      | .ok words => .ok (word :: words)

/-- What the arguments ask for. -/
inductive Request where
  | run (options : Options)
  | help
  deriving DecidableEq, Repr

/-- Arguments read so far: the options, whether a file name may still come, and what was not
recognized. -/
structure Progress where
  options : Options
  awaitsFile : Bool
  extras : List String
  deriving DecidableEq, Repr

/-- Takes a word as the file name. -/
def Progress.takeFile (progress : Progress) (text : String) : Progress :=
  { progress with options := { progress.options with file := some text }, awaitsFile := false }

def Progress.addExtra (progress : Progress) (text : String) : Progress :=
  { progress with extras := progress.extras ++ [text] }

/-- Takes the words in order. The first plain word is the file name, with the separator next to it;
later ones are surplus. -/
def collect : List Word → Progress → Except Fault Request
  | [], progress =>
    if progress.extras = [] then .ok (.run progress.options)
    else .error (.unrecognized progress.extras)
  | .switch .help :: _, _ => .ok .help
  | .switch .tree :: rest, progress =>
    collect rest { progress with options := { progress.options with showTree := true } }
  | .surplus switch argument :: _, _ => .error (.ignoredArgument switch.name argument)
  | .unknown text :: rest, progress => collect rest (progress.addExtra text)
  | .plain text :: rest, progress =>
    if progress.awaitsFile then
      match rest with
      | .separator :: rest => collect rest (progress.takeFile text)
      | rest => collect rest (progress.takeFile text)
    else collect rest (progress.addExtra text)
  | .separator :: rest, progress =>
    if progress.awaitsFile then
      match rest with
      | .plain text :: rest => collect rest (progress.takeFile text)
      | rest => collect rest { progress with awaitsFile := false }
    else collect rest (progress.addExtra "--")

/-- Reads the arguments of the program. -/
def parse (arguments : List String) : Except Fault Request :=
  match classifyAll arguments with
  | .error fault => .error fault
  | .ok words =>
    collect words
      { options := { file := none, showTree := false }, awaitsFile := true, extras := [] }

end Options
end LetLang
