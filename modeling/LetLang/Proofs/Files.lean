import LetLang.Proofs.Shells.Replies
/-!
# Running a file

A file that can be read is run as one source, from its first line on. The run prints a warning if
the last line asks for another one, then the trees if they are shown, the values, and the report of
what went wrong. It ends the program with a status of its own if anything did.
-/
namespace LetLang

open Text

namespace Runner

/-- The file can be opened under a name that is not reserved, and holds a text. -/
structure Readable (files : Files) (path : String) (text : List Char) : Prop where
  not_typed : path ≠ typedInput
  no_null : '\x00' ∉ path.toList
  decodes : ∃ bytes, files path = some bytes ∧ Utf8.decode bytes = .ok text

/-- The session that runs a file, before it has anything to run. -/
def fileSession (path : String) (showTree : Bool) : Session :=
  .new ((Reporter.new true).registerFile path) path showTree

/-- The source that a file makes up. -/
def fileSource (text : List Char) : String :=
  Session.joinLines (Session.fileLines text).1

theorem fileSession_shows (path : String) (showTree : Bool) :
    (fileSession path showTree).Shows true none := by
  simp [Session.Shows, fileSession, Session.new, Reporter.new, Reporter.registerFile,
    Reporter.register, Reporter.setEntry, Reporter.showing]

/-- The warning about a file whose last line, of so many, asks for another one. -/
def endWarningText (colours : Bool) (path : String) (count : Nat) : String :=
  Ink.plain.paint colours (path ++ ":" ++ Nat.repr count ++ ":0: ") ++
    Ink.magenta.paint colours "warning: " ++
    ("'" ++ Ink.plain.paint colours path ++ "' ends with a line continuation") ++ "\n"

def fileWarning (colours : Bool) (path : String) (text : List Char) : String :=
  if (Session.fileLines text).2 then endWarningText colours path (Session.fileLines text).1.length
  else ""

/-- A session on a readable file begins by loading it. -/
theorem Readable.start_eq {files : Files} {path : String} {text : List Char}
    (h : Readable files path text) (colours : Bool) (reporter : Reporter) (typed showTree : Bool) :
    Session.start colours files reporter path typed showTree =
      (Session.new
        (if typed then { reporter.registerFile path with fatal := false }
          else reporter.registerFile path) path showTree).load colours text := by
  obtain ⟨bytes, hbytes, hdecode⟩ := h.decodes
  have hnull : path.toList.contains '\x00' = false := by simpa using h.no_null
  rw [Session.start, if_neg h.not_typed, hnull, hbytes, if_neg Bool.false_ne_true]
  dsimp only
  rw [hdecode]

/-- Loading a file queues its source, and leaves no trace of the warning. -/
theorem load_fileSession (colours : Bool) (path : String) (showTree : Bool) (text : List Char) :
    (fileSession path showTree).load colours text =
      .ok ((fileSession path showTree).add (fileSource text) 1, fileWarning colours path text) := by
  have hshows : (fileSession path showTree).reporter = .showing true path none :=
    fileSession_shows path showTree
  have hpath : (fileSession path showTree).path = path := rfl
  rw [Session.load, fileSource, fileWarning]
  rcases Session.fileLines text with ⟨prepared, _ | _⟩
  · rfl
  · dsimp only
    have hwarns (last : String) (count : Nat) :
        (Reporter.showing true path (some (last, count))).canWarn = true := rfl
    rw [if_pos rfl, if_pos rfl, hshows, hpath, Reporter.registerLine_showing,
      if_pos (hwarns _ _), Reporter.removeLine_showing, ← hshows]
    have hcolumn : ":" ++ (Nat.repr (locate "" 0).column ++ ": ") = ":0: " := by decide +kernel
    refine congrArg Except.ok (Prod.ext rfl ?_)
    simp [Reporter.warningText, Reporter.showing, endWarningText, Session.endWarning,
      Notice.highlighted, Notice.plain, Segment.highlighted, Reporter.diagnosisText,
      Reporter.numberText, hcolumn, String.append_assoc]

/-- A reporter whose reports are fatal ends the program, whatever it reports. -/
theorem verdict_of_fatal (colours : Bool) (path : String) {place : Option (String × LineNumber)}
    (hlines : (Reporter.showing true path place).canReport = true) (fault : Fault) :
    ((Reporter.showing true path place).settle colours (some fault.interruption)).verdict =
      .exits := by
  have hreport (notice : Notice) (otherwise : Verdict) :
      ((Reporter.showing true path place).report colours notice otherwise).verdict = .exits := by
    rw [Reporter.report, if_pos hlines]
    rfl
  cases fault <;> exact hreport _ _

/-- What a run of a file prints, and how it ends. -/
theorem runFile_eq (colours : Bool) (limits : Limits) {files : Files} {path : String}
    {text : List Char} (h : Readable files path text) (showTree : Bool) :
    let session := fileSession path showTree
    let run := (session.add (fileSource text) 1).run limits
    let course := Program.inputCourse limits session.root (fileSource text) session.store
    let fault := (Session.resultsFault course.values).or course.fault
    run.fault = course.fault ∧
      runFile colours limits files path showTree =
        { output := fileWarning colours path text ++ run.printed ++
            Session.resultsText course.values ++
            run.report colours fault
          errors := ""
          ending := if fault = none then .returned else .exited 1 } := by
  intro session run course fault
  have hstart : Session.start colours files (.new true) path false showTree =
      .ok (session.add (fileSource text) 1, fileWarning colours path text) :=
    (h.start_eq colours (.new true) false showTree).trans
      (load_fileSession colours path showTree text)
  have hfollows : session.Follows run course := session.run_add_follows limits rfl _ _
  have hresults : run.session.results = course.values := by
    rw [hfollows.session_eq]
    exact List.nil_append course.values
  refine ⟨hfollows.fault_eq, ?_⟩
  have hrun : (session.add (fileSource text) 1).run limits = run := rfl
  rw [runFile, hstart]
  dsimp only
  rw [hrun, Session.printed_printResults, Session.fault_printResults, Session.reporter_printResults]
  have hstands := (fileSession_shows path showTree).run_add rfl limits (fileSource text) 1
  obtain ⟨place, hplace⟩ : ∃ place, run.session.Shows true place := hstands.exists_shows
  have hlines : run.session.reporter.canReport = true :=
    hstands.canReport (LineNumber.counted_natCast 1)
  rw [hresults, hfollows.fault_eq, Reporter.printed_settle hlines, Session.Run.report]
  have hfault : (Session.resultsFault course.values).or course.fault = fault := rfl
  rw [hfault]
  cases fault with
  | none => rfl
  | some fault =>
    have hverdict :
        (run.session.reporter.settle colours (some fault.interruption)).verdict = .exits := by
      have hreporter : run.session.reporter = .showing true run.session.path place := hplace
      rw [hreporter] at hlines ⊢
      exact verdict_of_fatal colours run.session.path hlines fault
    simp only [Option.map_some, hverdict, conclude, reduceCtorEq, if_false]

end Runner
end LetLang
