import LetLang.Proofs.Reports
import LetLang.Proofs.Sessions.Places
import LetLang.Proofs.Shells
/-!
# Replies

What a shell prints when it has run a source: the trees, if it shows them, the report of the fault,
if there is one, and the results. What may leave the shell is a fault that no reporter contains, or
the fault of a result that cannot be written.
-/
namespace LetLang

/-! ### Results -/

namespace Session

/-- The texts of values, one on a line, up to one that cannot be written. -/
def resultsText : List Value → String
  | [] => ""
  | value :: values =>
    match value.text? with
    | none => ""
    | some text => text ++ "\n" ++ resultsText values

/-- The fault of printing values. -/
def resultsFault (values : List Value) : Option Fault :=
  if ∀ value ∈ values, value.text?.isSome then none else some .numberTooLong

theorem printResults_go_eq (values : List Value) (session : Session) :
    let run := printResults.go values session
    run.printed = resultsText values ∧ run.fault = resultsFault values ∧
      run.session.reporter = session.reporter := by
  induction values with
  | nil => exact ⟨rfl, rfl, rfl⟩
  | cons value values ih =>
    rw [printResults.go, resultsText, resultsFault]
    cases htext : value.text? with
    | none => exact ⟨rfl, by simp [htext], rfl⟩
    | some text =>
      obtain ⟨hprinted, hfault, hreporter⟩ := ih
      refine ⟨?_, ?_, hreporter⟩
      · dsimp only
        rw [hprinted]
      · dsimp only
        rw [hfault, resultsFault]
        simp [htext]

theorem printed_printResults (session : Session) :
    session.printResults.printed = resultsText session.results :=
  (printResults_go_eq session.results session).1

theorem fault_printResults (session : Session) :
    session.printResults.fault = resultsFault session.results :=
  (printResults_go_eq session.results session).2.1

theorem reporter_printResults (session : Session) :
    session.printResults.session.reporter = session.reporter :=
  (printResults_go_eq session.results session).2.2

/-! ### Reports of runs -/

/-- The report of a fault after a run, if there is one. -/
def Run.report (colours : Bool) (run : Run) (fault : Option Fault) : String :=
  run.session.reporter.faultText colours fault

theorem Run.printed_settle {run : Run} (h : run.session.reporter.canReport = true)
    (colours : Bool) : (run.settle colours).2.1 = run.printed ++ run.report colours run.fault := by
  rw [Run.settle, Run.report, Reporter.printed_settle h]

end Session

/-- A session that has run one source has followed its course. -/
theorem Session.run_add_follows (limits : Limits) {session : Session} (hqueue : session.queue = [])
    (source : String) (number : LineNumber) :
    session.Follows ((session.add source number).run limits)
      (Program.inputCourse limits session.root source session.store) := by
  have hadd : session.add source number =
      { session with queue := (session.add source number).queue } := by
    rw [Session.add]
    split <;> rfl
  have hcourse := session.courses_add limits hqueue source number
  have hfollows := { session with queue := (session.add source number).queue }.run_follows limits
  have hsession : { session with queue := [] } = session := by rw [← hqueue]
  dsimp only at hfollows
  rw [hcourse, hsession, ← hadd] at hfollows
  exact hfollows

/-- How a shell goes on with a fault, or without one. -/
def Shell.Outcome.after : Option Fault → Shell.Outcome
  | none => .continues
  | some fault => .fails fault

/-- The fault that leaves the shell when a course is over and the results are printed. -/
def Course.leaving (course : Course) (results : List Value) : Option Fault :=
  (course.fault.filter Fault.escapes).or (Session.resultsFault results)

theorem Course.leaving_of_escapes {course : Course} {fault : Fault} (h : course.fault = some fault)
    (hescapes : fault.escapes = true) (results : List Value) :
    course.leaving results = some fault := by
  rw [leaving, h, Option.filter_some_pos hescapes, Option.some_or]

theorem Course.leaving_of_contained {course : Course} (h : course.fault.any Fault.escapes = false)
    (results : List Value) : course.leaving results = Session.resultsFault results := by
  have hnone : course.fault.filter Fault.escapes = none := by
    cases hcourse : course.fault with
    | none => rfl
    | some fault =>
      rw [hcourse, Option.any_some] at h
      simp [h]
  rw [leaving, hnone, Option.none_or]

namespace Shell

theorem runInput_of_escapes {colours : Bool} {limits : Limits} {shell : Shell} {source : String}
    {session : Session} {printed : String} {fault : Fault}
    (hsettle : ((shell.session.add source shell.firstLine).run limits).settle colours =
      (session, printed, .escapes))
    (hfault : ((shell.session.add source shell.firstLine).run limits).fault = some fault) :
    shell.runInput colours limits source =
      { shell := { shell with session }, printed, outcome := .fails fault } := by
  rw [runInput]
  dsimp only
  rw [hsettle, hfault]

theorem runInput_of_contained {colours : Bool} {limits : Limits} {shell : Shell} {source : String}
    {session : Session} {printed : String}
    (hsettle : ((shell.session.add source shell.firstLine).run limits).settle colours =
      (session, printed, .contained)) :
    shell.runInput colours limits source =
      { shell := { shell with session := session.printResults.session }
        printed := printed ++ Session.resultsText session.results
        outcome := .after (Session.resultsFault session.results) } := by
  rw [runInput]
  dsimp only
  rw [hsettle, ← Session.printed_printResults, ← Session.fault_printResults]
  cases ((shell.session.add source shell.firstLine).run limits).fault with
  | none | some =>
    dsimp only
    cases session.printResults.fault <;> rfl

/-- What a shell replies to a source. -/
theorem runInput_reply (colours : Bool) (limits : Limits) {shell : Shell}
    (hidle : shell.session.Idle) (hqueue : shell.session.queue = []) (source : String) :
    let session := shell.session
    let run := (session.add source shell.firstLine).run limits
    let course := Program.inputCourse limits session.root source session.store
    let results := session.results ++ course.values
    let reply := shell.runInput colours limits source
    run.fault = course.fault ∧
      reply.printed = run.printed ++ run.report colours course.fault ++
        (if course.fault.any Fault.escapes then "" else Session.resultsText results) ∧
      reply.outcome = .after (course.leaving results) := by
  intro session run course results reply
  obtain ⟨hfault, hsettle⟩ :
      run.fault = course.fault ∧
        run.settle colours =
          (session.keeping { store := course.store, results },
            (run.settle colours).2.1,
            if course.fault.any Fault.escapes then .escapes else .contained) :=
    Session.settle_run_add colours limits hidle hqueue source shell.firstLine
  refine ⟨hfault, ?_⟩
  have hlines : run.session.reporter.canReport = true :=
    Session.canReport_run_add limits hidle hqueue source shell.firstLine
  rw [Session.Run.printed_settle hlines, hfault] at hsettle
  cases hescapes : course.fault.any Fault.escapes with
  | true =>
    rw [hescapes] at hsettle
    obtain ⟨fault, hcourse, hfails⟩ := (Option.any_eq_true ..).1 hescapes
    have hreply : reply = _ := runInput_of_escapes hsettle (hfault.trans hcourse)
    rw [hreply, Course.leaving_of_escapes hcourse hfails, if_pos rfl]
    exact ⟨(String.append_empty).symm, rfl⟩
  | false =>
    rw [hescapes] at hsettle
    have hreply : reply = _ := runInput_of_contained hsettle
    rw [hreply, Course.leaving_of_contained hescapes]
    exact ⟨rfl, rfl⟩

/-- What a shell replies to a line that completes a source. -/
theorem answer_reply (colours : Bool) (limits : Limits) {shell : Shell} {line source : String}
    {number : Nat} (hidle : shell.session.Idle) (hqueue : shell.session.queue = [])
    (hadded : shell.added line = some (source, number)) :
    let session := shell.session
    let run := (session.add source number).run limits
    let course := Program.inputCourse limits session.root source session.store
    let results := session.results ++ course.values
    let reply := shell.answer colours limits line
    run.fault = course.fault ∧
      reply.printed = run.printed ++ run.report colours course.fault ++
        (if course.fault.any Fault.escapes then "" else Session.resultsText results) ∧
      reply.outcome = .after (course.leaving results) := by
  cases shell.answered colours limits line with
  | command _ hnone | continued _ hnone =>
    rw [hadded] at hnone
    cases hnone
  | completed _ hadded' _ hanswer =>
    obtain ⟨rfl, rfl⟩ := Prod.mk.inj (Option.some.inj (hadded.symm.trans hadded'))
    -- Noting the line has left the session alone.
    have hsession := shell.note_session line
    have hreply := runInput_reply colours limits (hsession ▸ hidle) (hsession ▸ hqueue) source
    rw [← hanswer, hsession] at hreply
    exact hreply

/-- What a shell replies to a line that completes no source. -/
theorem answer_of_added_eq_none (colours : Bool) (limits : Limits) {shell : Shell} {line : String}
    (h : shell.added line = none) :
    let reply := shell.answer colours limits line
    reply.printed ∈ ["", helpText ++ "\n", "\n"] ∧ reply.outcome ∈ [.continues, .stops] := by
  cases shell.answered colours limits line with
  | @command command _ _ hanswer =>
    rw [hanswer]
    cases command <;> simp [obey]
  | continued _ _ _ hanswer =>
    rw [hanswer]
    simp
  | completed _ hadded =>
    rw [h] at hadded
    cases hadded

end Shell
end LetLang
