import LetLang.Proofs.Files
/-!
# What is printed

Every value that a program computes is printed once, in the order in which it was computed, and
whether or not something fails after it. A file's values come before the report of what failed, and
those of a line typed into a shell come after it.
-/
namespace LetLang

/-! ### Values that can be written -/

/-- Texts as lines. -/
def linesText (texts : List String) : String :=
  String.join (texts.map (· ++ "\n"))

namespace Session

theorem resultsText_eq {values : List Value} {texts : List String}
    (h : values.map Value.text? = texts.map some) : resultsText values = linesText texts := by
  induction values generalizing texts with
  | nil =>
    have hnil : texts = [] := by simpa using h.symm
    rw [hnil]
    rfl
  | cons value values ih =>
    cases texts with
    | nil => cases h
    | cons text texts =>
      obtain ⟨htext, hrest⟩ := List.cons.inj h
      rw [resultsText, htext, linesText, List.map_cons, String.join_cons]
      dsimp only
      rw [ih hrest, linesText]

/-- Printing fails only if a value cannot be written. -/
theorem resultsFault_eq_none_iff {values : List Value} :
    resultsFault values = none ↔ ∃ texts : List String, values.map Value.text? = texts.map some := by
  rw [resultsFault, ite_eq_left_iff]
  constructor
  · intro h
    have hall : ∀ value ∈ values, value.text?.isSome := by
      by_contra hnot
      cases h hnot
    clear h
    induction values with
    | nil => exact ⟨[], rfl⟩
    | cons value values ih =>
      rw [List.forall_mem_cons] at hall
      obtain ⟨text, htext⟩ := Option.isSome_iff_exists.1 hall.1
      obtain ⟨texts, htexts⟩ := ih hall.2
      exact ⟨text :: texts, by rw [List.map_cons, htext, htexts, List.map_cons]⟩
  · rintro ⟨texts, htexts⟩ hnot
    exfalso
    apply hnot
    intro value hvalue
    have hmem : value.text? ∈ texts.map some := htexts ▸ List.mem_map_of_mem hvalue
    obtain ⟨text, -, htext⟩ := List.mem_map.1 hmem
    rw [← htext]
    rfl

end Session

/-! ### Reports and trees -/

theorem Reporter.errorText_ne_empty (colours : Bool) (reporter : Reporter) (notice : Notice) :
    reporter.errorText colours notice ≠ "" := by
  rw [errorText, ne_eq, ← String.toList_inj]
  simp

/-- Something is reported exactly if there is a fault. -/
theorem Session.Run.report_eq_empty_iff {colours : Bool} {run : Run} {fault : Option Fault} :
    run.report colours fault = "" ↔ fault = none := by
  cases fault with
  | none => exact ⟨fun _ => rfl, fun _ => rfl⟩
  | some fault => simp [Run.report, Reporter.faultText, Reporter.errorText_ne_empty]

theorem Session.printed_run_add {session : Session} (h : session.showTree = false)
    (limits : Limits) (source : String) (number : LineNumber) :
    ((session.add source number).run limits).printed = "" := by
  have hquiet : { session.add source number with showTree := false } =
      session.add source number := by
    rw [Session.add]
    split <;> rw [← h]
  have hprinted := (Session.run_shows limits (session.add source number)).printed_eq
  rwa [hquiet] at hprinted

/-! ### The command line -/

/-- What does not begin with a dash is a file name. -/
theorem Options.parse_of_head?_ne {path : String} (h : path.toList.head? ≠ some '-') :
    parse [path] = .ok (.run { file := some path, showTree := false }) := by
  have hclassify : classify path = .ok (.plain path) := by
    unfold classify
    split <;> simp_all
  rw [parse, classifyAll, hclassify]
  rfl

/-! ### Files -/

/-- A run of a file whose values can all be written. -/
theorem Runner.runFile_of_texts (colours : Bool) (limits : Limits) {files : Files} {path : String}
    {text : List Char} (h : Readable files path text) {texts : List String} :
    let session := fileSession path false
    let source := fileSource text
    let run := (session.add source 1).run limits
    let course := Program.inputCourse limits session.root source session.store
    course.values.map Value.text? = texts.map some →
      runFile colours limits files path false =
        { output := fileWarning colours path text ++ linesText texts ++
            run.report colours course.fault
          errors := ""
          ending := if course.fault = none then .returned else .exited 1 } := by
  intro session source run course htexts
  have hnone : Session.resultsFault course.values = none :=
    Session.resultsFault_eq_none_iff.2 ⟨texts, htexts⟩
  have hprinted : run.printed = "" := Session.printed_run_add rfl limits source 1
  obtain ⟨-, hrun⟩ := runFile_eq colours limits h false
  rw [hrun, hnone, Option.none_or, Session.resultsText_eq htexts, hprinted, String.append_empty]

/-! ### Shells -/

/-- The fault that leaves the shell is none only if the course's own stays within, and every result
can be written. -/
theorem Course.leaving_eq_none_iff {course : Course} {results : List Value} :
    course.leaving results = none ↔
      course.fault.any Fault.escapes = false ∧ Session.resultsFault results = none := by
  cases hescapes : course.fault.any Fault.escapes with
  | true =>
    obtain ⟨fault, hcourse, hfails⟩ := (Option.any_eq_true ..).1 hescapes
    simp [leaving_of_escapes hcourse hfails]
  | false => simp [leaving_of_contained hescapes]

/-- A shell that shows no trees, has nothing left to print, and does not fail prints the report and
the values of the source that a line completes. -/
theorem Shell.printed_of_not_fails (colours : Bool) (limits : Limits) {shell : Shell}
    {line source : String} {number : Nat} (hidle : shell.session.Idle)
    (hqueue : shell.session.queue = []) (htree : shell.session.showTree = false)
    (hresults : shell.session.results = []) (hadded : shell.added line = some (source, number))
    (hfails : ∀ fault, (shell.answer colours limits line).outcome ≠ .fails fault) :
    let session := shell.session
    let run := (session.add source number).run limits
    let course := Program.inputCourse limits session.root source session.store
    ∃ texts : List String, course.values.map Value.text? = texts.map some ∧
      (shell.answer colours limits line).printed =
        run.report colours course.fault ++ linesText texts := by
  intro session run course
  obtain ⟨-, hprinted, houtcome⟩ := answer_reply colours limits hidle hqueue hadded
  have hleaving : course.leaving (session.results ++ course.values) = none := by
    cases hleaving : course.leaving (session.results ++ course.values) with
    | none => rfl
    | some fault =>
      rw [hleaving] at houtcome
      exact absurd houtcome (hfails fault)
  obtain ⟨hcontained, hwritten⟩ := Course.leaving_eq_none_iff.1 hleaving
  rw [show session.results = [] from hresults, List.nil_append] at hwritten
  obtain ⟨texts, htexts⟩ := Session.resultsFault_eq_none_iff.1 hwritten
  have hquiet : run.printed = "" := Session.printed_run_add htree limits source number
  refine ⟨texts, htexts, ?_⟩
  rw [hprinted, hcontained, hresults, List.nil_append, Session.resultsText_eq htexts, hquiet,
    String.empty_append]
  rfl

/-- Every value is printed once. A run of a file whose values can be written prints the warning about
its last line, if that asks for another one, the values of the expressions that were completed, in
order, and then a report if one failed, in which case it ends with status 1 and not by returning.
After any lines of which none has failed the shell, a line that completes a source is answered by
the report, if an expression failed, and the values of those that were completed before it; what was
completed in earlier lines is not printed again. Any other line is answered without values. -/
theorem values_are_printed_once (colours : Bool) (limits : Limits) :
    (∀ (files : Files) (path : String) (text : List Char) (input : String) (texts : List String),
      Options.parse [path] = .ok (.run { file := some path, showTree := false }) →
      Runner.Readable files path text →
      let session := Runner.fileSession path false
      let source := Runner.fileSource text
      let course := Program.inputCourse limits session.root source session.store
      course.values.map Value.text? = texts.map some →
        let report := ((session.add source 1).run limits).report colours course.fault
        Runner.run colours limits files [path] input =
            { output := Runner.fileWarning colours path text ++ linesText texts ++ report
              errors := ""
              ending := if course.fault = none then .returned else .exited 1 } ∧
          (report = "" ↔ course.fault = none)) ∧
      ∀ (lines : List String) (line : String),
        let first := Runner.newShell false
        let shell := first.afterAll colours limits lines
        let session := shell.session
        let reply := shell.answer colours limits line
        (∀ reply ∈ first.replies colours limits (lines ++ [line]),
          ∀ fault, reply.outcome ≠ .fails fault) →
        (shell.added line = none → reply.printed ∈ ["", Shell.helpText ++ "\n", "\n"]) ∧
          ∀ source number, shell.added line = some (source, number) →
            let course := Program.inputCourse limits session.root source session.store
            let report := ((session.add source number).run limits).report colours course.fault
            ∃ texts : List String, course.values.map Value.text? = texts.map some ∧
              reply.printed = report ++ linesText texts ∧
              (report = "" ↔ course.fault = none) := by
  constructor
  · intro files path text input texts hparse hreadable session source course htexts report
    refine ⟨?_, Session.Run.report_eq_empty_iff⟩
    rw [Runner.run, hparse]
    exact Runner.runFile_of_texts colours limits hreadable htexts
  · intro lines line first shell session reply hreplies
    refine ⟨fun hnone => (Shell.answer_of_added_eq_none colours limits hnone).1, ?_⟩
    intro source number hadded course report
    rw [Shell.replies_append, List.forall_mem_append, List.forall_mem_singleton] at hreplies
    obtain ⟨-, hidle, hqueue, htree, hresults⟩ :=
      Shell.session_afterAll colours limits false lines
    have hnone : session.results = [] := hresults hreplies.1
    obtain ⟨texts, htexts, hprinted⟩ :=
      Shell.printed_of_not_fails colours limits hidle hqueue htree hnone hadded hreplies.2
    exact ⟨texts, htexts, hprinted, Session.Run.report_eq_empty_iff⟩

/-- A file that computes two values before it fails, and asks for a line after its last one; and a
shell whose second line fails between its expressions. -/
theorem values_are_printed_once_failing :
    let limits : Limits := ⟨99, 99⟩
    let content := "let x = 2\nx + 1 x / 0 9\nx \\"
    let files : Files := fun path => if path = "a.toy" then some content.toUTF8.toList else none
    let session := Runner.fileSession "a.toy" false
    let course := Program.inputCourse limits session.root
      (Runner.fileSource content.toList) session.store
    let lines := ["let x = 2", "x + 1 x / 0 9"]
    let shell := (Runner.newShell false).afterAll false limits lines
    Options.parse ["a.toy"] = .ok (.run { file := some "a.toy", showTree := false }) ∧
      Runner.Readable files "a.toy" content.toList ∧
      course.values.map Value.text? = ["2", "3"].map some ∧
      Runner.run false limits files ["a.toy"] "" =
        { output := "a.toy:3:0: warning: 'a.toy' ends with a line continuation\n2\n3\n" ++
            "Traceback:\n  File 'a.toy', line 2:\n    x + 1 x / 0 9\n" ++
            "error: cannot divide '2' by zero\n"
          errors := ""
          ending := .exited 1 } ∧
      (∀ reply ∈ (Runner.newShell false).replies false limits (lines ++ ["x"]),
        ∀ fault, reply.outcome ≠ .fails fault) ∧
      (shell.answer false limits "x").printed = "2\n" := by
  intro limits content files session course lines shell
  have hparse : Options.parse ["a.toy"] = .ok (.run { file := some "a.toy", showTree := false }) :=
    Options.parse_of_head?_ne (by decide)
  have hreadable : Runner.Readable files "a.toy" content.toList :=
    ⟨by decide, by decide, content.toUTF8.toList, by decide +kernel, by decide +kernel⟩
  have htexts : course.values.map Value.text? = ["2", "3"].map some := by decide +kernel
  have hreplies : ∀ reply ∈ (Runner.newShell false).replies false limits (lines ++ ["x"]),
      ∀ fault, reply.outcome ≠ .fails fault := by
    intro reply hreply fault hfails
    have hcontinues : ∀ reply ∈ (Runner.newShell false).replies false limits (lines ++ ["x"]),
        reply.outcome = .continues := by decide +kernel
    rw [hcontinues reply hreply] at hfails
    cases hfails
  obtain ⟨hfile, hshell⟩ := values_are_printed_once false limits
  obtain ⟨hrun, -⟩ := hfile files "a.toy" content.toList "" ["2", "3"] hparse hreadable htexts
  obtain ⟨-, hsource⟩ := hshell lines "x" hreplies
  obtain ⟨texts, htexts', hprinted, -⟩ := hsource "x" 3 (by decide +kernel)
  refine ⟨hparse, hreadable, htexts, ?_, hreplies, ?_⟩
  · rw [hrun]
    decide +kernel
  · have hone : (["2"] : List String).map some = texts.map some := by
      rw [← htexts']
      decide +kernel
    obtain rfl := List.map_injective_iff.2 (Option.some_injective _) hone
    rw [hprinted]
    decide +kernel

/-- The name that stands for typed input, and what looks like an option, are no names of files that
can be run, whatever the files hold. -/
theorem some_files_are_refused :
    let limits : Limits := ⟨99, 99⟩
    let files : Files := fun _ => some "1".toUTF8.toList
    let course (path : String) :=
      let session := Runner.fileSession path false
      Program.inputCourse limits session.root (Runner.fileSource ['1']) session.store
    Text.Utf8.decode "1".toUTF8.toList = .ok ['1'] ∧
      (∀ path ∈ ["<in>", "-x"],
        (course path).values.map Value.text? = [some "1"] ∧ (course path).fault = none ∧
          Runner.run false limits files [path] "" ≠
            { output := "1\n", errors := "", ending := .returned }) ∧
      Runner.run false limits files ["<in>"] "" =
        { output := "error: '<in>' is a reserved filename\n", errors := ""
          ending := .exited 1 } ∧
      Runner.run false limits files ["-x"] "" =
        { output := "", errors := Options.usage ++ "toylang: error: unrecognized arguments: -x\n"
          ending := .exited 2 } := by
  decide +kernel

end LetLang
