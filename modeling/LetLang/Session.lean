import LetLang.Continuation
import LetLang.Program
import LetLang.Reporter
import LetLang.Text.Utf8
/-!
# Sessions

A session runs sources against one root scope that outlives them. Sources are queued and run
later, results wait until they are taken. While an expression is being worked on, the reporter
knows the line on which it begins.
-/
namespace LetLang

/-- The name that stands for typed input in place of a path. -/
def typedInput : String := "<in>"

/-- Why a session cannot begin. -/
inductive OpenFault where
  | cannotOpen (path : String)
  | reservedName
  | nullInPath
  | undecodable (fault : Text.Utf8.Fault)
  /-- The number with which a warning begins is too long to be written. -/
  | unwarnable
  deriving DecidableEq, Repr

def OpenFault.interruption : OpenFault → Interruption
  | cannotOpen path => .notice (.plain [.words "'", .piece path, .words "' could not be opened"])
  | reservedName => .notice (.plain [.words ("'" ++ typedInput ++ "' is a reserved filename")])
  | nullInPath => .failure "ValueError" "embedded null byte"
  | undecodable fault => .failure "UnicodeDecodeError" fault.message
  | unwarnable => Fault.numberTooLong.interruption

structure Session where
  path : String
  /-- Whether the tree of an expression is printed before it is evaluated. -/
  showTree : Bool
  store : Store
  /-- The scope that all sources share. -/
  root : ScopeId
  /-- The sources to be run, with the numbers of their first lines. -/
  queue : List (String × LineNumber)
  /-- The values that were not yet taken, oldest first. -/
  results : List Value
  reporter : Reporter
  deriving DecidableEq, Repr

/-- A session after an action, with what the action printed and what stopped it. -/
structure Session.Run where
  session : Session
  printed : String
  fault : Option Fault
  deriving DecidableEq, Repr

/-- The contents of the files that can be read. -/
abbrev Files := String → Option (List UInt8)

namespace Session

/-- A session with nothing queued. -/
def new (reporter : Reporter) (path : String) (showTree : Bool) : Session :=
  let (root, store) := Store.empty.root []
  { path, showTree, store, root, queue := [], results := [], reporter }

/-- Queues a source, unless it is blank. -/
def add (session : Session) (source : String) (number : LineNumber) : Session :=
  if Text.allBlank source then session
  else { session with queue := session.queue ++ [(source, number)] }

def endWarning (path : String) : Notice :=
  .plain [.words "'", .piece path, .words "' ends with a line continuation"]

/-- The lines of a file, prepared, and whether the last of them asks for another one. -/
def fileLines (text : List Char) : List (List Char) × Bool :=
  Continuation.prepareAll false (Text.heldLines (Text.unifyLineBreaks text))

/-- Lines as one text, with a line break after each. -/
def joinLines (lines : List (List Char)) : String :=
  String.ofList (lines.flatMap (· ++ ['\n']))

/-- Queues the text of a file, and warns before if its last line asks for another one. -/
def load (colours : Bool) (session : Session) (text : List Char) :
    Except (OpenFault × Reporter) (Session × String) :=
  let (prepared, unfinished) := fileLines text
  let source := joinLines prepared
  if unfinished then
    let last := String.ofList (Text.strip (prepared.getLast?.getD []))
    let reporter := session.reporter.registerLine session.path last (some prepared.length)
    if reporter.canWarn then
      .ok ({ session with reporter := reporter.removeLine session.path }.add source 1,
        reporter.warningText colours (endWarning session.path))
    else .error (.unwarnable, reporter)
  else .ok (session.add source 1, "")

/-- Begins a session on a file, or on typed input. Typed input makes reports harmless. -/
def start (colours : Bool) (files : Files) (reporter : Reporter) (path : String) (typed : Bool)
    (showTree : Bool) : Except (OpenFault × Reporter) (Session × String) :=
  let reporter := reporter.registerFile path
  let reporter := if typed then { reporter with fatal := false } else reporter
  let session := new reporter path showTree
  if path = typedInput then
    if typed then .ok (session, "") else .error (.reservedName, reporter)
  else if path.toList.contains '\x00' then .error (.nullInPath, reporter)
  else
    match files path with
    | none => .error (.cannotOpen path, reporter)
    | some bytes =>
      match Text.Utf8.decode bytes with
      | .error fault => .error (.undecodable fault, reporter)
      | .ok text => session.load colours text

/-- The session while it works on the expression that begins with `token`. -/
def beginAt (session : Session) (source : String) (number : LineNumber) (token : Token) :
    Session :=
  let location := Text.locate source token.pos
  { session with
    reporter := session.reporter.registerLine session.path (Text.stripped location.line)
      (some (number.plus location.index)) }

/-- Prints the tree of an expression, if asked for, and evaluates it. -/
def runExpr (limits : Limits) (session : Session) (expr : Expr) : Run :=
  match if session.showTree then (expr.display? 0).map (· ++ "\n") else some "" with
  | none => { session, printed := "", fault := some .numberTooLong }
  | some printed =>
    match (evaluate limits.evaluation expr session.root).run.run session.store with
    | (.error fault, store) => { session := { session with store }, printed, fault := some fault }
    | (.ok value, store) =>
      { session :=
          { session with
            store
            results := session.results ++ [value]
            reporter := session.reporter.removeLine session.path }
        printed
        fault := none }

/-- Runs the expressions that the stream still holds, for at most as many of them as `rounds` has
elements; each takes a token at least. -/
def runStream (limits : Limits) (source : String) (number : LineNumber) :
    (rounds : List Token) → TokenStream → Session → Run
  | rounds, stream, session =>
    match Reading.on TokenStream.peek stream, rounds with
    | (.error fault, _), _ => { session, printed := "", fault := some fault }
    | (.ok token, stream), _ :: rounds =>
      if token.kind = .eof then { session, printed := "", fault := none }
      else
        let session := session.beginAt source number token
        match Reading.on (Parser.parseNext limits.parsing) stream with
        | (.error fault, _) => { session, printed := "", fault := some fault }
        | (.ok (expr, _), stream) =>
          let first := session.runExpr limits expr
          match first.fault with
          | some _ => first
          | none =>
            let rest := runStream limits source number rounds stream first.session
            { rest with printed := first.printed ++ rest.printed }
    | _, [] => { session, printed := "", fault := none }

/-- Runs sources in order, up to the first fault. -/
def runSources (limits : Limits) : List (String × LineNumber) → Session → Run
  | [], session => { session, printed := "", fault := none }
  | (source, number) :: sources, session =>
    let stream := TokenStream.ofText source
    let first := runStream limits source number stream.pending stream session
    match first.fault with
    | some _ => first
    | none =>
      let rest := runSources limits sources first.session
      { rest with printed := first.printed ++ rest.printed }

/-- Empties the queue and runs what was in it. Reading and evaluation have their budgets; showing a
tree has none, so that a run never stops because a tree is too deep to be displayed. -/
def run (limits : Limits) (session : Session) : Run :=
  runSources limits session.queue { session with queue := [] }

/-- Takes the oldest result: its text, or none if it cannot be written. -/
def pop? (session : Session) : Option (Option String × Session) :=
  match session.results with
  | [] => none
  | value :: results => some (value.text?, { session with results })

/-- Prints all results, one on a line, up to one that cannot be written, which is lost. -/
def printResults (session : Session) : Run :=
  go session.results session
where
  go : List Value → Session → Run
    | [], session => { session := { session with results := [] }, printed := "", fault := none }
    | value :: results, session =>
      match value.text? with
      | none =>
        { session := { session with results }, printed := "", fault := some .numberTooLong }
      | some text =>
        let rest := go results session
        { rest with printed := text ++ "\n" ++ rest.printed }

/-- Settles a run with the session's reporter: the session after it, what was printed and what
becomes of the fault. -/
def Run.settle (colours : Bool) (run : Run) : Session × String × Verdict :=
  let settled := run.session.reporter.settle colours (run.fault.map Fault.interruption)
  ({ run.session with reporter := settled.reporter }, run.printed ++ settled.printed,
    settled.verdict)

end Session
end LetLang
