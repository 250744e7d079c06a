import LetLang.Proofs.Files
import LetLang.Proofs.Locations
/-!
# What tracebacks show

The report of a fault names the line on which the expression that failed begins, and no other: in a
file by its number in the file, in a shell by its number among the lines of input. It names none if
the source fails before its first token, and a later report never shows what an earlier one did.
-/
namespace LetLang

open Text

/-! ### Reports of places -/

/-- A traceback with one entry. -/
def traceText (path : String) (line : List Char) (number : Nat) : String :=
  "Traceback:\n" ++ ("  File '" ++ path ++ "', line " ++ Nat.repr number ++ ":\n" ++
    "    " ++ String.ofList line ++ "\n")

/-- The report of a fault without a traceback. -/
def Fault.account (colours : Bool) (fault : Fault) : String :=
  (Reporter.new true).errorText colours fault.notice

namespace Reporter

theorem faultText_showing_none (colours fatal : Bool) (path : String) (fault : Fault) :
    (showing fatal path none).faultText colours (some fault) = fault.account colours := by
  have hnone : tracebackText (showing fatal path none).traceback = tracebackText [] := rfl
  rw [faultText, errorText, hnone]
  rfl

theorem faultText_showing_some (colours fatal : Bool) (path : String) {line : List Char}
    (hline : line ≠ []) (number : Nat) (fault : Fault) :
    (showing fatal path (some (String.ofList line, (number : LineNumber)))).faultText colours
        (some fault) =
      traceText path line number ++ fault.account colours := by
  have hentry : tracebackText (showing fatal path (some (String.ofList line, number))).traceback =
      traceText path line number := by
    have hne : String.ofList line ≠ "" := by simpa using hline
    simp [tracebackText, showing, entryText, hne, numberText, traceText]
  have hnone : tracebackText [] = "" := rfl
  rw [faultText, errorText, hentry, Fault.account, errorText, Reporter.new, hnone]
  simp only [String.append_assoc, String.empty_append]

end Reporter

/-- The report of a fault in a source that is made of prepared lines, when some of its expressions
have been completed: its traceback has one entry, the line on which the next expression begins, or
none if the source fails before its first token. -/
inductive Traced (colours : Bool) (parsing : Nat) (path : String) (lines : List (List Char))
    (first : Nat) (source : String) (completed : Nat) (fault : Fault) : String → Prop
  | atOnce (h : (Lexer.tokenize source).tokens = []) :
      Traced colours parsing path lines first source completed fault (fault.account colours)
  | within {token rest index line} (hkind : token.kind ≠ .eof)
      (hphrased : Program.Phrased parsing ((Program.expressions parsing source).1.take completed)
        (Lexer.tokenize source).tokens (token :: rest))
      (hon : token.On lines index) (hline : lines[index]? = some line) :
      Traced colours parsing path lines first source completed fault
        (traceText path (strip line) (first + index) ++ fault.account colours)

/-- A session that stands in a source reports accordingly. -/
theorem Session.Stands.traced {session : Session} {fatal : Bool} {parsing first : Nat}
    {source : String} {course : Course} {lines : List (List Char)} (colours : Bool)
    (h : session.Stands fatal parsing source first course) (hfault : course.fault ≠ none)
    (hlaid : Laid source lines) (hlines : ∀ line ∈ lines, '\n' ∉ line) (fault : Fault) :
    Traced colours parsing session.path lines first source course.values.length fault
      (session.reporter.faultText colours (some fault)) := by
  obtain ⟨token, hfails, hshows⟩ := h.failed hfault
  have hreporter : session.reporter = _ := hshows
  rw [hreporter]
  cases hfails with
  | atOnce hnone =>
    rw [Option.map_none, Reporter.faultText_showing_none]
    exact .atOnce hnone
  | @within token rest hkind hphrased =>
    have hmem : token ∈ (Lexer.tokenize source).tokens :=
      hphrased.suffix.mem List.mem_cons_self
    obtain ⟨index, line, hon, hline, hstrip, hlocated, hindex⟩ :=
      exists_on hlaid hlines (Lexer.placed_of_mem hmem hkind)
    have hplace : placeOf source first token =
        (String.ofList (strip line), ((first + index : Nat) : LineNumber)) := by
      rw [placeOf, hlocated, hindex, stripped, String.toList_ofList, LineNumber.plus]
    rw [Option.map_some, hplace, Reporter.faultText_showing_some colours fatal _ hstrip]
    exact .within hkind hphrased hon hline

/-! ### Files -/

theorem notMem_fileLines (text : List Char) : ∀ line ∈ (Session.fileLines text).1, '\n' ∉ line :=
  notMem_prepareAll (by decide) (notMem_heldLines _) false

theorem laid_fileSource (text : List Char) :
    Laid (Runner.fileSource text) (Session.fileLines text).1 :=
  .inl (toList_joinLines _)

/-- The report that a run of a file ends with. -/
theorem Runner.fileReport_traced (colours : Bool) (limits : Limits) (path : String)
    (text : List Char) (showTree : Bool) :
    let session := fileSession path showTree
    let source := fileSource text
    let run := (session.add source 1).run limits
    let course := Program.inputCourse limits session.root source session.store
    ∀ reported,
      let report := run.report colours (some reported)
      (course.fault = none → report = reported.account colours) ∧
        (course.fault ≠ none →
          Traced colours limits.parsing path (Session.fileLines text).1 1 source
            course.values.length reported report) := by
  intro session source run course reported report
  have hshows : session.Shows true none := fileSession_shows path showTree
  have hstands : run.session.Stands true limits.parsing source 1 course :=
    hshows.run_add rfl limits source 1
  have hpath : run.session.path = path := by
    rw [(session.run_add_follows limits rfl source 1).session_eq]
    rfl
  constructor
  · intro hfine
    have hreporter : run.session.reporter = _ := hstands.idle hfine
    change run.session.reporter.faultText colours (some reported) = _
    rw [hreporter]
    exact Reporter.faultText_showing_none colours true _ reported
  · intro hfailed
    have htraced := hstands.traced colours hfailed (laid_fileSource text) (notMem_fileLines text)
      reported
    rw [hpath] at htraced
    exact htraced

/-! ### Shells -/

namespace Shell

theorem laid_joinGroup (group : List String) :
    Laid (Transcript.joinGroup group)
      (Continuation.prepareAll false (group.map String.toList)).1 := by
  refine .inr ?_
  rw [Transcript.joinGroup, String.toList_ofList, toList_joinLines]

/-- The report in the reply to a line that completes a source. -/
theorem Transcript.Reaches.traced {limits : Limits} {initial : Session} {transcript : Transcript}
    {shell : Shell} {line source : String} {number : Nat} (colours : Bool)
    (hshows : initial.Shows false none) (hqueue : initial.queue = [])
    (h : transcript.Reaches limits initial shell) (hline : OneLine line)
    (hadded : shell.added line = some (source, number)) :
    let group := transcript.unfinished ++ [line]
    let run := (shell.session.add source number).run limits
    let course := Program.inputCourse limits initial.root source shell.session.store
    let reply := shell.answer colours limits line
    (number = transcript.closed.flatten.length + 1 ∧
        (transcript.take line).kept = transcript.closed.flatten ++ group) ∧
      ∃ report,
        reply.printed = run.printed ++ report ++
          (if course.fault.any Fault.escapes then ""
          else Session.resultsText (shell.session.results ++ course.values)) ∧
        (course.fault = none → report = "") ∧
        ∀ fault, course.fault = some fault →
          Traced colours limits.parsing initial.path
            (Continuation.prepareAll false (group.map String.toList)).1 number source
            course.values.length fault report := by
  intro group run course reply
  have hsession := h.session_eq
  cases shell.answered colours limits line with
  | command _ hnone | continued _ hnone =>
    rw [hadded] at hnone
    cases hnone
  | @completed source' hheeded hadded' hnote hanswer =>
    obtain ⟨rfl, rfl⟩ := Prod.mk.inj (Option.some.inj (hadded.symm.trans hadded'))
    have hinput := h.noted.holds.heeded?_eq_none_iff.1 hheeded
    obtain ⟨-, hsource⟩ := h.noted.holds.note hinput
    have hcloses :
        ¬ (Continuation.prepare line.toList (transcript.unfinished ≠ [])).2 = true := by
      intro hasks
      rw [if_pos hasks, hnote] at hsource
      cases hsource
    rw [if_neg hcloses, hnote, Option.some.injEq] at hsource
    have hnumber : (shell.note line).1.firstLine = transcript.closed.flatten.length + 1 := by
      rw [h.noted.note_eq line]
      dsimp only
      split <;> rfl
    have hkept : (transcript.take line).kept = transcript.closed.flatten ++ group := by
      rw [Transcript.take, if_neg hinput, if_neg hcloses]
      simp [Transcript.kept, group]
    -- The session is the initial one with other books, so that it is idle before the run.
    have hshows' : shell.session.Shows false none := by
      rw [hsession]
      exact hshows
    have hqueue' : shell.session.queue = [] := by
      rw [hsession]
      exact hqueue
    obtain ⟨-, hprinted, -⟩ := answer_reply colours limits hshows' hqueue' hadded
    have hstands := hshows'.run_add hqueue' limits source (shell.note line).1.firstLine
    have hroot : shell.session.root = initial.root := by rw [hsession]; rfl
    have hpath : run.session.path = initial.path := by
      rw [(shell.session.run_add_follows limits hqueue' source _).session_eq, hsession]
      rfl
    rw [hroot] at hprinted hstands
    refine ⟨⟨hnumber, hkept⟩, run.report colours course.fault, hprinted, ?_, ?_⟩
    · intro hfine
      rw [hfine]
      rfl
    · intro fault hfails
      have hlaid := laid_joinGroup group
      have hbreaks : ∀ line ∈ group.map String.toList, '\n' ∉ line := by
        intro cs hcs
        obtain ⟨other, hother, rfl⟩ := List.mem_map.1 hcs
        rcases List.mem_append.1 hother with hbefore | hlast
        · exact (h.noted.oneLine other hbefore).2
        · rw [List.mem_singleton.1 hlast]
          exact hline.2
      have hfailed : course.fault ≠ none := by simp [hfails]
      rw [← show source = Transcript.joinGroup group from hsource] at hlaid
      have hprepared := notMem_prepareAll (by decide) hbreaks false
      have htraced := hstands.traced colours hfailed hlaid hprepared fault
      rw [hpath] at htraced
      rw [hfails]
      exact htraced

end Shell

/-- Where a report says that something failed is where it did. A file is one source from line 1 on,
and each of its lines is one of the prepared lines of the source. If an expression fails, in its
reading or in its evaluation, the report shows one line: the one on which the first token of that
expression stands, after those that were completed. It shows none if the source fails before its
first token. The same holds of the groups of lines that are typed into a shell, whose lines are
numbered as they were kept; and after each line the shell has forgotten the place again, so that no
later report shows it. -/
theorem failures_are_located (colours : Bool) (limits : Limits) (showTree : Bool) :
    (∀ (files : Files) (path : String) (text : List Char), Runner.Readable files path text →
      let prepared := (Session.fileLines text).1
      let source := Runner.fileSource text
      let session := Runner.fileSession path showTree
      let run := (session.add source 1).run limits
      let course := Program.inputCourse limits session.root source session.store
      let fault := (Session.resultsFault course.values).or course.fault
      prepared.length = (heldLines (unifyLineBreaks text)).length ∧
        ∃ report,
          (Runner.runFile colours limits files path showTree).output =
            Runner.fileWarning colours path text ++ run.printed ++
              Session.resultsText course.values ++ report ∧
          (fault = none → report = "") ∧
          ∀ reported, fault = some reported →
            (course.fault = none → report = reported.account colours) ∧
            (course.fault ≠ none →
              Traced colours limits.parsing path prepared 1 source course.values.length reported
                report)) ∧
      ∀ (lines : List String) (line : String), (∀ line ∈ lines, OneLine line) → OneLine line →
        let first := Runner.newShell showTree
        let shell := first.afterAll colours limits lines
        let transcript := lines.foldl Shell.Transcript.take .start
        let reply := shell.answer colours limits line
        reply.shell.session.reporter = .showing false typedInput none ∧
          (shell.added line = none → reply.printed ∈ ["", Shell.helpText ++ "\n", "\n"]) ∧
          ∀ source number, shell.added line = some (source, number) →
            let group := transcript.unfinished ++ [line]
            let prepared := (Continuation.prepareAll false (group.map String.toList)).1
            let run := (shell.session.add source number).run limits
            let course := Program.inputCourse limits first.session.root source shell.session.store
            number = transcript.closed.flatten.length + 1 ∧
              (transcript.take line).kept = transcript.closed.flatten ++ group ∧
              prepared.length = group.length ∧
              ∃ report,
                reply.printed = run.printed ++ report ++
                  (if course.fault.any Fault.escapes then ""
                  else Session.resultsText (shell.session.results ++ course.values)) ∧
                (course.fault = none → report = "") ∧
                ∀ fault, course.fault = some fault →
                  Traced colours limits.parsing typedInput prepared number source
                    course.values.length fault report := by
  constructor
  · intro files path text hreadable prepared source session run course fault
    obtain ⟨-, hrun⟩ := Runner.runFile_eq colours limits hreadable showTree
    refine ⟨length_prepareAll false _, run.report colours fault,
      congrArg Runner.Outcome.output hrun, ?_, ?_⟩
    · intro hnone
      rw [hnone]
      rfl
    · intro reported hreported
      rw [hreported]
      exact Runner.fileReport_traced colours limits path text showTree reported
  · intro lines line hlines hline first shell transcript reply
    have hstart : Shell.Transcript.start.Reaches limits first.session first :=
      ⟨Shell.Transcript.noted_start _, rfl⟩
    have hshows : first.session.Shows false none := rfl
    obtain ⟨hreaches, -, -⟩ := hstart.afterAll colours hshows rfl hlines
    obtain ⟨hsession, -⟩ := Shell.answer_keeping colours hshows rfl hreaches.session_eq line
    refine ⟨?_, fun hnone =>
      (Shell.answer_of_added_eq_none colours limits hnone).1, ?_⟩
    · rw [show reply.shell.session = _ from hsession]
      exact hshows
    · intro source number hadded group prepared run course
      obtain ⟨⟨hnumber, hkept⟩, report, hprinted, hnone, htraced⟩ :=
        hreaches.traced colours hshows rfl hline hadded
      have hlength : prepared.length = group.length := by
        rw [length_prepareAll, List.length_map]
      exact ⟨hnumber, hkept, hlength, report, hprinted, hnone, htraced⟩

/-- A division in the third expression of a file, and one that is typed into a shell: both begin on
the line before the one that holds the division. -/
theorem failures_are_located_continued :
    let limits : Limits := ⟨99, 99⟩
    let content := "1\n// one\nlet y = \\\n  2 / 0\n"
    let files : Files := fun path => if path = "a.toy" then some content.toUTF8.toList else none
    let lines := ["help", "1", "", "let z = \\"]
    let shell := (Runner.newShell false).afterAll false limits lines
    let reply := shell.answer false limits "  2 / 0"
    let fault := Fault.language (.divisionByZero "2")
    Runner.Readable files "a.toy" content.toList ∧ (∀ line ∈ lines, OneLine line) ∧
      OneLine "  2 / 0" ∧ shell.added "  2 / 0" = some ("let z = \n 2 / 0", 2) ∧
      (Runner.runFile false limits files "a.toy" false).output =
        "1\nTraceback:\n  File 'a.toy', line 3:\n    let y =\nerror: cannot divide '2' by zero\n" ∧
      (∃ report, Traced false 99 "a.toy"
        ["1".toList, "// one".toList, "let y = ".toList, " 2 / 0".toList] 1
        "1\n// one\nlet y = \n 2 / 0\n" 1 fault report) ∧
      reply.printed =
        "Traceback:\n  File '<in>', line 2:\n    let z =\nerror: cannot divide '2' by zero\n" ∧
      ∃ report, Traced false 99 "<in>" ["let z = ".toList, " 2 / 0".toList] 2
        "let z = \n 2 / 0" 0 fault report := by
  intro limits content files lines shell reply fault
  have hreadable : Runner.Readable files "a.toy" content.toList :=
    ⟨by decide, by decide, content.toUTF8.toList, by decide +kernel, by decide +kernel⟩
  have hlines : ∀ line ∈ lines, OneLine line := by decide +kernel
  have hline : OneLine "  2 / 0" := by decide +kernel
  have hadded : shell.added "  2 / 0" = some ("let z = \n 2 / 0", 2) := by decide +kernel
  obtain ⟨hfile, hshell⟩ := failures_are_located false limits false
  obtain ⟨-, report, -, -, htraced⟩ := hfile files "a.toy" content.toList hreadable
  obtain ⟨-, -, hsource⟩ := hshell lines "  2 / 0" hlines hline
  obtain ⟨-, -, -, report', -, -, htraced'⟩ := hsource _ _ hadded
  have hfirst := (htraced fault (by decide +kernel)).2 (by decide +kernel)
  have hsecond := htraced' fault (by decide +kernel)
  refine ⟨hreadable, hlines, hline, hadded, by decide +kernel, ⟨report, ?_⟩, by decide +kernel,
    report', ?_⟩
  · convert hfirst using 1 <;> decide +kernel
  · convert hsecond using 1 <;> decide +kernel

end LetLang
