import LetLang.Draft
/-!
# Reports

A reporter knows for each file, in the order in which the files became known, the line that is
being worked on, if any. It shows notices with those lines, and settles what becomes of an
interrupted computation: a report either ends the program or makes it forget the lines and go on.
-/
namespace LetLang

/-- The number of a line: counted while lines are read, or given from outside. No count of what was
read has as many digits as a numeral may have; a given number may have more. -/
inductive LineNumber where
  | counted (n : Nat)
  | given (n : Int)
  deriving DecidableEq, Repr

namespace LineNumber

instance : Coe Nat LineNumber := ⟨counted⟩

instance (n : Nat) : OfNat LineNumber n := ⟨counted n⟩

/-- The number of the line that comes so many lines later. -/
def plus : LineNumber → Nat → LineNumber
  | counted n, lines => counted (n + lines)
  | given n, lines => given (n + lines)

def value : LineNumber → Int
  | counted n => n
  | given n => n

def text (number : LineNumber) : String :=
  Numeral.text number.value

/-- Whether the text of the number is within the limit. -/
def writable : LineNumber → Bool
  | counted _ => true
  | given n => (Numeral.text? n).isSome

end LineNumber

/-- The line of a file that is being worked on. -/
structure TraceEntry where
  path : String
  line : Option String
  number : Option LineNumber
  deriving DecidableEq, Repr

structure Reporter where
  /-- Whether a report ends the program. -/
  fatal : Bool
  traceback : List TraceEntry
  deriving DecidableEq, Repr

/-- What a computation can be interrupted by. -/
inductive Interruption where
  | notice (notice : Notice)
  | keyboard
  | recursion
  | exit
  /-- A failure that is no error of the language, with the name of its class. -/
  | failure (name message : String)
  deriving DecidableEq, Repr

/-- What becomes of an interrupted computation. -/
inductive Verdict where
  | contained
  | escapes
  | exits
  /-- The report failed, because the number of a line is too long to be written. -/
  | unwritten
  deriving DecidableEq, Repr

/-- A reporter after an action, with what the action printed and what it decided. -/
structure Settled where
  reporter : Reporter
  printed : String
  verdict : Verdict
  deriving DecidableEq, Repr

namespace Fault

/-- The message about a number with too many digits, after the detail that is known of it. -/
def limitMessage (detail : String) : String :=
  s!"Exceeds the limit ({Numeral.digitLimit} digits) for integer string conversion" ++ detail ++
    "; use sys.set_int_max_str_digits() to increase the limit"

def interruption : Fault → Interruption
  | language error => .notice error.notice
  | recursionLimit => .recursion
  | numeralTooLong digits => .failure "ValueError" (limitMessage s!": value has {digits} digits")
  | numberTooLong => .failure "ValueError" (limitMessage "")
  | exhausted => .failure "StopIteration" ""

end Fault

/-- A template that cannot be filled is a failure of the program. -/
def Template.Fault.interruption (fault : Template.Fault) : Interruption :=
  .failure fault.className fault.message

namespace Reporter

def new (fatal : Bool) : Reporter :=
  { fatal, traceback := [] }

/-- Replaces the entry of a path, or adds one at the end. -/
def setEntry (entry : TraceEntry) : List TraceEntry → List TraceEntry
  | [] => [entry]
  | old :: rest => if old.path = entry.path then entry :: rest else old :: setEntry entry rest

def register (reporter : Reporter) (path : String) (line : Option String)
    (number : Option LineNumber) : Reporter :=
  { reporter with traceback := setEntry { path, line, number } reporter.traceback }

/-- Makes a file known, and forgets its line. -/
def registerFile (reporter : Reporter) (path : String) : Reporter :=
  reporter.register path none none

def registerLine (reporter : Reporter) (path line : String) (number : Option LineNumber) :
    Reporter :=
  reporter.register path (some line) number

def removeLine (reporter : Reporter) (path : String) : Reporter :=
  reporter.register path none none

/-- Forgets every line and keeps the files. -/
def forgetLines (reporter : Reporter) : Reporter :=
  { reporter with
    traceback := reporter.traceback.map fun entry =>
      { entry with line := none, number := none } }

def numberText (number : Option LineNumber) : String :=
  match number with
  | some n => n.text
  | none => "None"

/-- The lines that a report shows for an entry: none without a line or for an empty one. -/
def entryText (entry : TraceEntry) : String :=
  match entry.line with
  | none => ""
  | some line =>
    if line = "" then ""
    else "  File '" ++ entry.path ++ "', line " ++ numberText entry.number ++ ":\n" ++
      "    " ++ line ++ "\n"

def tracebackText (entries : List TraceEntry) : String :=
  let text := String.join (entries.map entryText)
  if text = "" then "" else "Traceback:\n" ++ text

/-- Whether the number of an entry can be written, if a report shows it. -/
def entryWritable (entry : TraceEntry) : Bool :=
  match entry.line with
  | none => true
  | some line => line = "" || entry.number.all LineNumber.writable

/-- Whether a report can list the lines. -/
def canReport (reporter : Reporter) : Bool :=
  reporter.traceback.all entryWritable

/-- Whether a warning can say where it comes from: it shows the number of the first entry, also
without a line. -/
def canWarn (reporter : Reporter) : Bool :=
  match reporter.traceback with
  | [] => true
  | entry :: _ => entry.number.all LineNumber.writable

/-- The diagnosis of a notice on lines of its own, if it is to be shown. -/
def diagnosisText (colours : Bool) (ink : Ink) (notice : Notice) : String :=
  if notice.diagnosed && !notice.internal then notice.diagnosis colours ink ++ "\n" else ""

/-- The report of an error. -/
def errorText (colours : Bool) (reporter : Reporter) (notice : Notice) : String :=
  tracebackText reporter.traceback ++
    (if notice.internal then Ink.red.paint colours "[internal] " else "") ++
    Ink.red.paint colours "error: " ++ notice.highlighted colours ++ "\n" ++
    diagnosisText colours .red notice

/-- The report of a warning, which names the first file that is known. -/
def warningText (colours : Bool) (reporter : Reporter) (notice : Notice) : String :=
  let place :=
    match reporter.traceback with
    | [] => "<unknown>:None"
    | entry :: _ => entry.path ++ ":" ++ numberText entry.number
  let column := (Text.locate notice.source notice.start).column
  Ink.plain.paint colours (place ++ ":" ++ Nat.repr column ++ ": ") ++
    Ink.magenta.paint colours "warning: " ++ notice.highlighted colours ++ "\n" ++
    diagnosisText colours .magenta notice

/-- A report that failed before anything of it was printed. -/
def unwritten (reporter : Reporter) : Settled :=
  { reporter, printed := "", verdict := .unwritten }

/-- Reports an error, if the lines can be listed; what happens then depends on whether reports are
fatal. -/
def report (colours : Bool) (reporter : Reporter) (notice : Notice) (otherwise : Verdict) :
    Settled :=
  let printed := reporter.errorText colours notice
  if reporter.canReport then
    if reporter.fatal then { reporter, printed, verdict := .exits }
    else { reporter := reporter.forgetLines, printed, verdict := otherwise }
  else reporter.unwritten

def interruptNotice : Notice :=
  .plain [.words "keyboard interrupt"]

def recursionNotice : Notice :=
  .plain [.words "maximum recursion depth exceeded during evaluation"]

def failureNotice (name message : String) : Notice :=
  { Notice.plain [.words "unknown error: '", .piece (name ++ ": " ++ message), .words "'"] with
    internal := true }

/-- Settles a computation that may have been interrupted: errors of the language, the recursion
limit and the user's interrupt are reported and contained, other failures are reported and escape,
and a request to exit just escapes. -/
def settle (colours : Bool) (reporter : Reporter) (interruption : Option Interruption) : Settled :=
  match interruption with
  | none => { reporter, printed := "", verdict := .contained }
  | some .exit => { reporter, printed := "", verdict := .escapes }
  | some (.notice notice) => reporter.report colours notice .contained
  | some .keyboard => reporter.report colours interruptNotice .contained
  | some .recursion => reporter.report colours recursionNotice .contained
  | some (.failure name message) =>
    reporter.report colours (failureNotice name message) .escapes

/-- Reports a draft, unless it cannot be shown. The lines are listed before it is looked at. -/
def reportDraft (colours : Bool) (reporter : Reporter) (draft : Draft) :
    Except Template.Fault Settled :=
  if reporter.canReport then (draft.notice colours).map (reporter.report colours · .contained)
  else .ok reporter.unwritten

/-- Warns by a draft, unless its place cannot be written or it cannot be shown. -/
def warnDraft (colours : Bool) (reporter : Reporter) (draft : Draft) :
    Except Interruption String :=
  if reporter.canWarn then
    match draft.notice colours with
    | .error fault => .error fault.interruption
    | .ok notice => .ok (reporter.warningText colours notice)
  else .error Fault.numberTooLong.interruption

end Reporter
end LetLang
