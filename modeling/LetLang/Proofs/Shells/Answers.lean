import LetLang.Proofs.Reports
import LetLang.Proofs.Sessions.Runs
import LetLang.Shell
/-!
# What a source does to a shell

A shell that runs a source changes the store and the results of its session, as the course of the
source says, and nothing else: the queue is emptied again, and whatever became of the source, the
reporter forgets the line that was being worked on.
-/
namespace LetLang

/-! ### The reporter -/

namespace Reporter

/-- A reporter that ends no program and knows one file, and perhaps a line of it. -/
def on (path : String) (line : Option String) (number : Option LineNumber) : Reporter :=
  { fatal := false, traceback := [{ path, line, number }] }

@[simp] theorem registerLine_on (path : String) (line : Option String) (number : Option LineNumber)
    (line' : String) (number' : Option LineNumber) :
    (on path line number).registerLine path line' number' = on path (some line') number' := by
  simp [on, registerLine, register, setEntry]

@[simp] theorem removeLine_on (path : String) (line : Option String) (number : Option LineNumber) :
    (on path line number).removeLine path = on path none none := by
  simp [on, removeLine, register, setEntry]

end Reporter

/-- The fault is a failure of the program, which no reporter contains. -/
def Fault.escapes : Fault → Bool
  | language _ | recursionLimit => false
  | numeralTooLong _ | numberTooLong | exhausted => true

/-- A reporter that has settled a fault knows no line any more. -/
theorem Reporter.settle_on (colours : Bool) (path : String) (line : Option String)
    {number : Option LineNumber} (hnumber : ∀ n ∈ number, n.Counted) (fault : Fault) :
    ((on path line number).settle colours (some fault.interruption)).reporter =
        on path none none ∧
      ((on path line number).settle colours (some fault.interruption)).verdict =
        if fault.escapes then .escapes else .contained := by
  have hlines : (on path line number).canReport = true := canReport_of_counted hnumber
  have hreport (notice : Notice) (otherwise : Verdict) :
      (on path line number).report colours notice otherwise =
        { reporter := on path none none
          printed := (on path line number).errorText colours notice
          verdict := otherwise } := by
    rw [report, if_pos hlines]
    rfl
  cases fault <;> simp [Fault.interruption, settle, hreport, Fault.escapes]

namespace Session

variable {limits : Limits} {session : Session}

/-- The session's reporter knows its own file only, and no line of it. -/
def Idle (session : Session) : Prop :=
  session.reporter = .on session.path none none

/-- The session's reporter knows its own file only, and perhaps a counted line of it. -/
def AtLine (session : Session) : Prop :=
  ∃ line number, session.reporter = .on session.path line number ∧ ∀ n ∈ number, n.Counted

/-- The session's reporter knows its own file only, and a counted line of it at most while there is
a fault. -/
def Run.Settleable (run : Run) : Prop :=
  run.session.AtLine ∧ (run.fault = none → run.session.Idle)

theorem AtLine.canReport (h : session.AtLine) : session.reporter.canReport = true := by
  obtain ⟨line, number, hreporter, hnumber⟩ := h
  rw [hreporter]
  exact Reporter.canReport_of_counted hnumber

theorem Idle.atLine (h : session.Idle) : session.AtLine := ⟨none, none, h, by simp⟩

theorem Idle.settleable (h : session.Idle) (printed : String) (fault : Option Fault) :
    Run.Settleable { session, printed, fault } :=
  ⟨h.atLine, fun _ => h⟩

theorem Idle.beginAt (h : session.Idle) (source : String) {number : LineNumber}
    (hnumber : number.Counted) (token : Token) :
    (session.beginAt source number token).AtLine := by
  have hreporter : session.reporter = .on session.path none none := h
  rw [Session.beginAt, hreporter]
  refine ⟨_, _, Reporter.registerLine_on .., ?_⟩
  simpa using hnumber.plus _

/-- An expression that is evaluated without a fault is forgotten. -/
theorem AtLine.runExpr (h : session.AtLine) (expr : Expr) :
    Run.Settleable (session.runExpr limits expr) := by
  unfold Session.runExpr
  split
  · exact ⟨h, fun hfault => by cases hfault⟩
  · split
    · exact ⟨h, fun hfault => by cases hfault⟩
    · obtain ⟨line, number, hreporter, -⟩ := h
      have hidle : session.reporter.removeLine session.path = .on session.path none none := by
        rw [hreporter, Reporter.removeLine_on]
      exact ⟨⟨none, none, hidle, by simp⟩, fun _ => hidle⟩

theorem Run.Settleable.andThen {first rest : Run} (printed : String)
    (hfirst : first.Settleable) (hrest : first.session.Idle → rest.Settleable) :
    Run.Settleable
      (match first.fault with
      | some _ => first
      | none => { rest with printed }) := by
  cases hfault : first.fault with
  | some fault => exact hfirst
  | none =>
    exact hrest (hfirst.2 hfault)

theorem Through.settleable {source : String} {number : LineNumber} {exprs : List Expr}
    {stop : Option Fault} {run : Session → Run} (h : Through limits source number exprs stop run)
    (hnumber : number.Counted) :
    ∀ session : Session, session.Idle → (run session).Settleable := by
  induction h with
  | done => exact fun session hidle => hidle.settleable _ _
  | misread token =>
    exact fun session hidle =>
      ⟨hidle.beginAt source hnumber token, fun hfault => by cases hfault⟩
  | @evaluated expr exprs stop rest token _ ih =>
    intro session hidle
    have hbegun : (session.beginAt source number token).AtLine :=
      hidle.beginAt source hnumber token
    exact (hbegun.runExpr expr).andThen _ fun hnext => ih _ hnext

theorem runSources_settleable {sources : List (String × LineNumber)}
    (hsources : ∀ source ∈ sources, source.2.Counted) :
    ∀ session : Session, session.Idle → (runSources limits sources session).Settleable := by
  induction sources with
  | nil => exact fun session hidle => hidle.settleable _ _
  | cons source sources ih =>
    intro session hidle
    rw [List.forall_mem_cons] at hsources
    let stream := TokenStream.ofText source.1
    have hthrough := runStream_through limits source.1 source.2 stream.pending stream
    have hfirst := hthrough.settleable hsources.1 session hidle
    exact hfirst.andThen _ fun hrest => ih hsources.2 _ hrest

/-- Settling a run makes its session idle. -/
theorem Run.Settleable.settle {run : Run} (h : run.Settleable) (colours : Bool) :
    run.settle colours =
      ({ run.session with reporter := .on run.session.path none none },
        (run.settle colours).2.1,
        if run.fault.any Fault.escapes then .escapes else .contained) := by
  obtain ⟨⟨line, number, hreporter, hnumber⟩, hidle⟩ := h
  rw [Run.settle]
  cases hfault : run.fault with
  | none =>
    have hnone : run.session.reporter = .on run.session.path none none := hidle hfault
    rw [hnone]
    rfl
  | some fault =>
    obtain ⟨hsettled, hverdict⟩ := Reporter.settle_on colours run.session.path line hnumber fault
    rw [hreporter, Option.map_some]
    simp only [hsettled, hverdict, Option.any_some]

/-- An idle session is idle again when a run of what was queued has been settled. -/
theorem settle_run (colours : Bool) (limits : Limits) (h : session.Idle)
    {queue : List (String × LineNumber)} (hqueue : ∀ source ∈ queue, source.2.Counted) :
    let run := { session with queue }.run limits
    let course := Program.courses limits session.root (queue.map Prod.fst) session.store
    run.fault = course.fault ∧
      run.settle colours =
        ({ session with
            queue := [], store := course.store, results := session.results ++ course.values },
          (run.settle colours).2.1,
          if course.fault.any Fault.escapes then .escapes else .contained) := by
  intro run course
  have hsettleable : run.Settleable :=
    runSources_settleable hqueue { session with queue := [] } h
  obtain ⟨hfault, hsession⟩ := { session with queue }.run_follows limits
  have hreporter : session.reporter = .on session.path none none := h
  have hrun : { run.session with reporter := .on run.session.path none none } =
      { session with
        queue := [], store := course.store, results := session.results ++ course.values } := by
    rw [hsession, hreporter]
  refine ⟨hfault, ?_⟩
  rw [hsettleable.settle colours, hrun, show run.fault = course.fault from hfault]

/-! ### The results -/

/-- What is left of the results when they have been printed up to one that cannot be written. -/
def unprinted : List Value → List Value
  | [] => []
  | value :: values =>
    match value.text? with
    | none => values
    | some _ => unprinted values

theorem printResults_go (values : List Value) (session : Session) :
    (printResults.go values session).session = { session with results := unprinted values } ∧
      ((printResults.go values session).fault = none → unprinted values = []) := by
  induction values with
  | nil => exact ⟨rfl, fun _ => rfl⟩
  | cons value values ih =>
    rw [printResults.go, unprinted]
    cases value.text? with
    | none => exact ⟨rfl, fun hfault => by cases hfault⟩
    | some text => exact ih

end Session

/-! ### One source -/

/-- What a session has to show for the sources that it was given. -/
structure Books where
  store : Store
  results : List Value

def Session.books (session : Session) : Books :=
  { store := session.store, results := session.results }

def Session.keeping (session : Session) (books : Books) : Session :=
  { session with store := books.store, results := books.results }

/-- Enters a source, unless it is blank: the values of its course are added to the results, which
are then printed, unless a failure escapes. -/
def Books.enter (limits : Limits) (root : ScopeId) (books : Books) (source : String) : Books :=
  let course :=
    if Text.allBlank source then { values := [], fault := none, store := books.store }
    else Program.course limits root source books.store
  let results := books.results ++ course.values
  { store := course.store
    results := if course.fault.any Fault.escapes then results else Session.unprinted results }

theorem Program.courses_singleton (limits : Limits) (scope : ScopeId) (text : String)
    (store : Store) : courses limits scope [text] store = course limits scope text store := by
  rw [courses]
  rcases course limits scope text store with ⟨values, _ | fault, store'⟩
  · simp [courses, Course.after]
  · rfl

/-- The course of what is in the queue when a source has been added to an empty one. -/
theorem Session.courses_add (limits : Limits) {session : Session} (hqueue : session.queue = [])
    (source : String) (number : LineNumber) :
    Program.courses limits session.root ((session.add source number).queue.map Prod.fst)
        session.store =
      if Text.allBlank source then { values := [], fault := none, store := session.store }
      else Program.course limits session.root source session.store := by
  rw [Session.add]
  by_cases hblank : Text.allBlank source = true
  · rw [if_pos hblank, if_pos hblank, hqueue]
    rfl
  · rw [if_neg hblank, if_neg hblank, hqueue]
    exact Program.courses_singleton limits session.root source session.store

theorem Session.counted_add {session : Session} (hqueue : session.queue = []) (source : String)
    (number : Nat) : ∀ queued ∈ (session.add source number).queue, queued.2.Counted := by
  rw [Session.add, hqueue]
  split
  · simp [hqueue]
  · simpa using LineNumber.counted_natCast number

/-- The fault of a run of one source can be reported. -/
theorem Session.canReport_run_add (limits : Limits) {session : Session} (hidle : session.Idle)
    (hqueue : session.queue = []) (source : String) (number : Nat) :
    ((session.add source number).run limits).session.reporter.canReport = true := by
  have hidle' : { session.add source number with queue := [] }.Idle := by
    rw [Session.add]
    split <;> exact hidle
  have hcounted := session.counted_add hqueue source number
  exact (runSources_settleable hcounted _ hidle').1.canReport

/-- Running one source from an empty queue, and settling the run. -/
theorem Session.settle_run_add (colours : Bool) (limits : Limits) {session : Session}
    (hidle : session.Idle) (hqueue : session.queue = []) (source : String) (number : Nat) :
    let run := (session.add source number).run limits
    let course :=
      if Text.allBlank source then { values := [], fault := none, store := session.store }
      else Program.course limits session.root source session.store
    run.fault = course.fault ∧
      run.settle colours =
        (session.keeping { store := course.store, results := session.results ++ course.values },
          (run.settle colours).2.1,
          if course.fault.any Fault.escapes then .escapes else .contained) := by
  have hadd : session.add source number =
      { session with queue := (session.add source number).queue } := by
    rw [Session.add]
    split <;> rfl
  have hcourse := session.courses_add limits hqueue source number
  have hcounted := session.counted_add hqueue source number
  generalize (session.add source number).queue = queue at hadd hcourse hcounted
  have hrun := settle_run colours limits hidle hcounted
  dsimp only at hrun ⊢
  rw [hcourse] at hrun
  rw [hadd, Session.keeping, hqueue]
  exact hrun

/-- A shell that runs a source keeps the books of its session, and changes nothing else. No result
waits after it, unless it has failed. -/
theorem Shell.runInput_eq (colours : Bool) (limits : Limits) {shell : Shell}
    (hidle : shell.session.Idle) (hqueue : shell.session.queue = []) (source : String) :
    let books := shell.session.books.enter limits shell.session.root source
    let reply := shell.runInput colours limits source
    reply.shell = { shell with session := shell.session.keeping books } ∧
      ((∀ fault, reply.outcome ≠ .fails fault) → books.results = []) := by
  obtain ⟨hfault, hsettle⟩ :=
    Session.settle_run_add colours limits hidle hqueue source shell.firstLine
  rw [Shell.runInput, Books.enter, Session.books]
  dsimp only
  rw [hsettle, hfault]
  generalize (if Text.allBlank source = true then
    { values := [], fault := none, store := shell.session.store }
    else Program.course limits shell.session.root source shell.session.store : Course) = course
  cases hescapes : course.fault.any Fault.escapes with
  | true =>
    cases hcourse : course.fault with
    | none =>
      rw [hcourse] at hescapes
      cases hescapes
    | some fault => exact ⟨rfl, fun hreply => absurd rfl (hreply fault)⟩
  | false =>
    have hprinted := Session.printResults_go (shell.session.results ++ course.values)
      (shell.session.keeping
        { store := course.store, results := shell.session.results ++ course.values })
    constructor
    · exact congrArg (fun session => { shell with session }) hprinted.1
    · intro hreply
      apply hprinted.2
      cases hfails : (Session.printResults.go _ _).fault with
      | none => rfl
      | some fault =>
        exfalso
        apply hreply fault
        exact congrArg
          (fun printed : Option Fault =>
            match printed with
            | some fault => Outcome.fails fault
            | none => Outcome.continues) hfails

end LetLang
