import LetLang.Proofs.Shells.Escapes
import LetLang.Runner
/-!
# Colours only add escape sequences

With colours the program prints what it prints without them, and escape sequences in between. It
reads, evaluates and keeps the same, forgets the same lines, and ends in the same way. The one
condition is that no escape character comes from outside: with the input, with the path of a file or
with its text.
-/
namespace LetLang

open Text

/-! ### Files -/

theorem Text.mem_of_mem_unifyLineBreaks {cs : List Char} {c : Char} (h : c ∈ unifyLineBreaks cs) :
    c = '\n' ∨ c ∈ cs := by
  fun_induction unifyLineBreaks cs with
  | case1 => exact .inr h
  | case2 rest ih | case3 rest _ ih | case4 d rest _ _ ih => grind

/-- The file, if it can be read, holds a text without escape characters. -/
def Files.EscapeFree (files : Files) (path : String) : Prop :=
  ∀ bytes ∈ files path, ∀ text, Utf8.decode bytes = .ok text → escape ∉ text

theorem Text.Utf8.Fault.escapeFree_message (fault : Fault) : EscapeFree fault.message := by
  have hdigit : ∀ n < 16, escape ≠ Nat.digitChar n := by decide
  have hbyte (byte : UInt8) : EscapeFree (hexByte byte) := by
    have hbound := byte.toNat_lt
    have hhigh := hdigit (byte.toNat / 16) (by omega)
    have hlow := hdigit (byte.toNat % 16) (by omega)
    exact escapeFree_ofList.2 (by simp [hhigh, hlow])
  have hreason : EscapeFree fault.flaw.reason := by
    cases fault.flaw <;> decide
  have hwords : EscapeFree "byte 0x" ∧ EscapeFree (toString " in position ") ∧
      EscapeFree (toString "bytes in position ") ∧ EscapeFree (toString "-") ∧
      EscapeFree "'utf-8' codec can't decode " ∧ EscapeFree ": " := by decide
  unfold message
  split <;> simp [hwords, hbyte, hreason]

theorem OpenFault.escapeFree_interruption {fault : OpenFault}
    (h : ∀ path, fault = .cannotOpen path → EscapeFree path) :
    fault.interruption.EscapeFree := by
  cases fault with
  | cannotOpen path =>
    have hwords : EscapeFree "'" ∧ EscapeFree "' could not be opened" := by decide
    refine ⟨?_, escapeFree_empty⟩
    simp [Notice.plain, Segment.text, hwords, h path rfl]
  | reservedName => exact ⟨by simpa [Notice.plain, Segment.text] using by decide, escapeFree_empty⟩
  | nullInPath => exact ⟨by decide, by decide⟩
  | undecodable fault => exact ⟨by decide, fault.escapeFree_message⟩
  | unwarnable => exact Fault.escapeFree_numberTooLong

namespace Session

theorem escapeFree_new {reporter : Reporter} (hreporter : reporter.EscapeFree) {path : String}
    (hpath : Text.EscapeFree path) (showTree : Bool) : (new reporter path showTree).EscapeFree :=
  ⟨hpath, Store.inside_start, List.forall_mem_nil _, List.forall_mem_nil _, hreporter⟩

theorem notMem_fileLines {text : List Char} (h : escape ∉ text) :
    ∀ line ∈ (fileLines text).1, escape ∉ line := by
  refine notMem_prepareAll (by decide) (fun line hline hmem => ?_) false
  have hunified := subset_of_mem_heldLines _ line hline hmem
  exact (mem_of_mem_unifyLineBreaks hunified).elim (by decide) h

/-- Loading a file warns in colours, but queues the same, and fails alike where it cannot warn. -/
theorem EscapeFree.load {session : Session} (h : session.EscapeFree) {text : List Char}
    (htext : escape ∉ text) :
    (∃ failed, failed.EscapeFree ∧
      ∀ colours, session.load colours text = .error (.unwarnable, failed)) ∨
    ∃ loaded warning, loaded.EscapeFree ∧ Painted warning ∧
      ∀ colours, session.load colours text = .ok (loaded, warning colours) := by
  have hlines := notMem_fileLines htext
  have hsource : Text.EscapeFree (joinLines (fileLines text).1) := by
    refine escapeFree_ofList.2 fun hmem => ?_
    obtain ⟨line, hline, hchar⟩ := List.mem_flatMap.1 hmem
    exact (List.mem_append.1 hchar).elim (hlines line hline) (by decide)
  unfold Session.load
  dsimp only
  generalize fileLines text = file at hlines hsource
  obtain ⟨prepared, unfinished⟩ := file
  cases unfinished with
  | false =>
    exact .inr ⟨session.add (joinLines prepared) 1, fun _ => "", h.add hsource 1,
      escapeFree_empty.painted, fun _ => rfl⟩
  | true =>
    have hlast : Text.EscapeFree (String.ofList (strip (prepared.getLast?.getD []))) := by
      refine escapeFree_ofList.2 fun hmem => ?_
      have hchar := mem_of_mem_strip hmem
      cases hgiven : prepared.getLast? with
      | none => simp [hgiven] at hchar
      | some line =>
        rw [hgiven] at hchar
        exact hlines line (List.mem_of_getLast? hgiven) hchar
    let reporter := session.reporter.registerLine session.path
      (String.ofList (strip (prepared.getLast?.getD []))) (some prepared.length)
    have hregistered : reporter.EscapeFree := h.reporter.registerLine h.path hlast _
    have hnotice : (endWarning session.path).EscapeFree := by
      have hwords : Text.EscapeFree "'" ∧ Text.EscapeFree "' ends with a line continuation" := by
        decide
      refine ⟨?_, escapeFree_empty⟩
      simp [endWarning, Notice.plain, Segment.text, hwords, h.path]
    have hforgotten :
        Session.EscapeFree { session with reporter := reporter.removeLine session.path } :=
      { h with reporter := hregistered.removeLine h.path }
    cases hwarns : reporter.canWarn with
    | false =>
      refine .inl ⟨reporter, hregistered, fun colours => ?_⟩
      rw [if_pos rfl, if_neg Bool.false_ne_true]
    | true =>
      refine .inr ⟨_, _, hforgotten.add hsource 1,
        Reporter.painted_warningText hregistered hnotice, fun colours => ?_⟩
      rw [if_pos rfl, if_pos rfl]

/-- Beginning a session on a file fails alike with colours and without, or gives the same session and
warnings that differ in escape sequences. -/
theorem start_painted {files : Files} {reporter : Reporter} (hreporter : reporter.EscapeFree)
    {path : String} (hpath : Text.EscapeFree path) (hfile : files.EscapeFree path)
    (showTree : Bool) :
    (∃ fault failed, fault.interruption.EscapeFree ∧ failed.EscapeFree ∧
      ∀ colours, start colours files reporter path false showTree = .error (fault, failed)) ∨
    ∃ session warning, session.EscapeFree ∧ Painted warning ∧
      ∀ colours, start colours files reporter path false showTree =
        .ok (session, warning colours) := by
  have hknown : (reporter.registerFile path).EscapeFree := hreporter.register hpath (by simp) none
  by_cases htyped : path = typedInput
  · exact .inl ⟨.reservedName, _, OpenFault.escapeFree_interruption (by simp), hknown,
      fun colours => by simp [start, htyped]⟩
  by_cases hnull : '\x00' ∈ path.toList
  · exact .inl ⟨.nullInPath, _, OpenFault.escapeFree_interruption (by simp), hknown,
      fun colours => by simp [start, htyped, hnull]⟩
  cases hbytes : files path with
  | none =>
    refine .inl
      ⟨.cannotOpen path, _, OpenFault.escapeFree_interruption (by simp [hpath]), hknown, ?_⟩
    intro colours
    simp [start, htyped, hnull, hbytes]
  | some bytes =>
    cases hdecode : Text.Utf8.decode bytes with
    | error fault =>
      refine .inl ⟨.undecodable fault, _, OpenFault.escapeFree_interruption (by simp), hknown, ?_⟩
      intro colours
      simp [start, htyped, hnull, hbytes, hdecode]
    | ok text =>
      have hstart (colours : Bool) : start colours files reporter path false showTree =
          (new (reporter.registerFile path) path showTree).load colours text := by
        simp [start, htyped, hnull, hbytes, hdecode]
      simp only [hstart]
      rcases (escapeFree_new hknown hpath showTree).load (hfile bytes hbytes text hdecode) with
        ⟨failed, hfailed, hload⟩ | hloaded
      · exact .inl
          ⟨.unwarnable, failed, OpenFault.escapeFree_interruption (by simp), hfailed, hload⟩
      · exact .inr hloaded

end Session

/-! ### Runs of the program -/

namespace Runner

/-- The outcome without its paint. -/
def Outcome.unpainted (outcome : Outcome) : Outcome :=
  { outcome with output := Text.unpainted outcome.output }

/-- What a run of the program comes to: its outcome, and the reporter and the session that it
leaves, if one began. -/
structure Aftermath where
  outcome : Outcome
  reporter : Reporter
  session? : Option Session

/-- The aftermath with its outcome bare of paint. -/
def Aftermath.unpainted (aftermath : Aftermath) : Aftermath :=
  { aftermath with outcome := aftermath.outcome.unpainted }

/-- A run of a file, with what it leaves. -/
def leaveFile (colours : Bool) (limits : Limits) (files : Files) (path : String)
    (showTree : Bool) : Aftermath :=
  match Session.start colours files (.new true) path false showTree with
  | .error (fault, reporter) =>
    let settled := reporter.settle colours (some fault.interruption)
    { outcome :=
        { output := settled.printed
          errors := ""
          ending := conclude settled.verdict (.failedToOpen fault) }
      reporter := settled.reporter
      session? := none }
  | .ok (session, warning) =>
    let run := session.run limits
    let results := run.session.printResults
    let fault := results.fault.or run.fault
    let settled := results.session.reporter.settle colours (fault.map Fault.interruption)
    { outcome :=
        { output := warning ++ run.printed ++ results.printed ++ settled.printed
          errors := ""
          ending :=
            match fault with
            | none => .returned
            | some fault => conclude settled.verdict (.failed fault) }
      reporter := settled.reporter
      session? := some { results.session with reporter := settled.reporter } }

theorem outcome_leaveFile (colours : Bool) (limits : Limits) (files : Files) (path : String)
    (showTree : Bool) :
    (leaveFile colours limits files path showTree).outcome =
      runFile colours limits files path showTree := by
  unfold leaveFile runFile
  rcases Session.start colours files (.new true) path false showTree with
    ⟨fault, reporter⟩ | ⟨session, warning⟩
  · rfl
  · rfl

theorem unpainted_leaveFile (limits : Limits) {files : Files} {path : String}
    (hpath : EscapeFree path) (hfile : files.EscapeFree path) (showTree : Bool) :
    (leaveFile true limits files path showTree).unpainted =
      leaveFile false limits files path showTree := by
  have hnew : (Reporter.new true).EscapeFree := List.forall_mem_nil _
  unfold leaveFile
  rcases Session.start_painted hnew hpath hfile showTree with
    ⟨fault, failed, hfault, hfailed, hstart⟩ | ⟨session, warning, hsession, hwarning, hstart⟩
  · have hprinted : Painted fun colours =>
        (failed.settle colours (some fault.interruption)).printed :=
      Reporter.painted_settle hfailed (by simpa using hfault)
    rw [hstart, hstart]
    simp only [Aftermath.unpainted, Outcome.unpainted, hprinted.unpainted_eq]
    rw [Reporter.settle_eq true]
  · have hrun := hsession.run limits
    have hresults := hrun.session.printResults
    have hfault : ∀ found ∈ (session.run limits).session.printResults.fault.or
        (session.run limits).fault, found.EscapeFree := by
      intro found hfound
      rcases Option.or_eq_some_iff.1 hfound with hfound | ⟨-, hfound⟩
      · exact hresults.fault found hfound
      · exact hrun.fault found hfound
    have hsettled := Reporter.painted_settle hresults.session.reporter
      (Fault.forall_interruption hfault)
    have hprinted := ((hwarning.append hrun.printed.painted).append hresults.printed.painted).append
      hsettled
    rw [hstart, hstart]
    simp only [Aftermath.unpainted, Outcome.unpainted, hprinted.unpainted_eq]
    rw [Reporter.settle_eq true]

/-! ### Shells -/

theorem escapeFree_newShell (showTree : Bool) : (newShell showTree).EscapeFree := by
  have hpath : Text.EscapeFree typedInput := by decide
  have hnew : (Reporter.new true).EscapeFree := List.forall_mem_nil _
  have hknown : ((Reporter.new true).registerFile typedInput).EscapeFree :=
    hnew.register hpath (by simp) none
  have hshell : Reporter.EscapeFree
      { (Reporter.new true).registerFile typedInput with fatal := false } := hknown
  have hprompt : Text.EscapeFree Shell.inputPrompt := by decide
  exact ⟨Session.escapeFree_new hshell hpath showTree, escapeFree_empty, hprompt⟩

theorem escapeFree_of_mem_shellLines {input : String} (h : EscapeFree input) :
    ∀ line ∈ shellLines input, EscapeFree line := by
  have hend : EscapeFree Shell.endOfInput := by decide
  have hlines : ∀ line ∈ (heldLines input.toList).map String.ofList, EscapeFree line := by
    intro line hline
    obtain ⟨cs, hcs, rfl⟩ := List.mem_map.1 hline
    exact escapeFree_ofList.2 fun hmem => h (subset_of_mem_heldLines _ cs hcs hmem)
  exact List.forall_mem_append.2 ⟨hlines, by simp [hend]⟩

/-- How a run of the shell ends does not depend on the colours. -/
theorem exists_endShell {reply : Bool → Shell.Reply} (h : Shell.Repainted reply) :
    ∃ output ending, Painted output ∧
      ∀ colours, endShell colours (reply colours) =
        { output := output colours, errors := "", ending } := by
  cases houtcome : (reply false).outcome with
  | continues | stops =>
    refine ⟨_, .returned, h.printed, fun colours => ?_⟩
    rw [endShell, h.reply_eq colours, houtcome]
  | exits =>
    refine ⟨_, .exited 1, h.printed, fun colours => ?_⟩
    rw [endShell, h.reply_eq colours, houtcome]
  | fails fault =>
    have hfault : fault.interruption.EscapeFree := h.fault fault houtcome
    have hsettled : Painted fun colours =>
        ((reply false).shell.session.reporter.settle colours (some fault.interruption)).printed :=
      Reporter.painted_settle h.shell.session.reporter (by simpa using hfault)
    let settled := (reply false).shell.session.reporter.settle false (some fault.interruption)
    have hverdict (colours : Bool) :
        ((reply false).shell.session.reporter.settle colours (some fault.interruption)).verdict =
          settled.verdict := by
      rw [Reporter.settle_eq colours]
    refine ⟨_, conclude settled.verdict (.failed fault), h.printed.append hsettled,
      fun colours => ?_⟩
    rw [endShell, h.reply_eq colours, houtcome]
    simp only [hverdict]

/-- A run of the shell, with what it leaves. -/
def leaveShell (colours : Bool) (limits : Limits) (input : String) (showTree : Bool) : Aftermath :=
  let reply := (newShell showTree).answerAll colours limits (shellLines input)
  let session := reply.shell.session
  let reporter :=
    match reply.outcome with
    | .fails fault => (session.reporter.settle colours (some fault.interruption)).reporter
    | _ => session.reporter
  { outcome := runShell colours limits input showTree
    reporter
    session? := some { session with reporter } }

theorem unpainted_leaveShell (limits : Limits) {input : String} (h : EscapeFree input)
    (showTree : Bool) :
    (leaveShell true limits input showTree).unpainted =
      leaveShell false limits input showTree := by
  have hreply := (escapeFree_newShell showTree).answerAll limits (escapeFree_of_mem_shellLines h)
  obtain ⟨output, ending, hpainted, hend⟩ := exists_endShell hreply
  have hintro : EscapeFree (Shell.intro ++ "\n") :=
    escapeFree_append.2 ⟨escapeFree_ofList.2 (by decide), by decide⟩
  have hall := hintro.painted.append hpainted
  have houtcome : (runShell true limits input showTree).unpainted =
      runShell false limits input showTree := by
    simp only [runShell, hend, Outcome.unpainted, hall.unpainted_eq]
  have hkept (reporter : Reporter) (interruption : Interruption) :
      (reporter.settle true (some interruption)).reporter =
        (reporter.settle false (some interruption)).reporter := by
    rw [Reporter.settle_eq true]
  simp only [leaveShell, Aftermath.unpainted, houtcome, hreply.shell_eq, hreply.outcome_eq, hkept]

/-! ### The program -/

/-- A run of the program, with what it leaves. Without a run of a file or of the shell, the reporter
is as it was at the beginning. -/
def leave (colours : Bool) (limits : Limits) (files : Files) (arguments : List String)
    (input : String) : Aftermath :=
  match Options.parse arguments with
  | .ok (.run options) =>
    match options.file with
    | some path => leaveFile colours limits files path options.showTree
    | none => leaveShell colours limits input options.showTree
  | _ =>
    { outcome := run colours limits files arguments input
      reporter := .new true
      session? := none }

theorem outcome_leave (colours : Bool) (limits : Limits) (files : Files) (arguments : List String)
    (input : String) :
    (leave colours limits files arguments input).outcome =
      run colours limits files arguments input := by
  unfold leave
  cases hparse : Options.parse arguments with
  | error fault => rfl
  | ok request =>
    cases request with
    | help => rfl
    | run options =>
      cases hfile : options.file with
      | none => simp only [run, hparse, hfile, leaveShell]
      | some path => simp only [run, hparse, hfile, outcome_leaveFile]

end Runner

theorem Options.escapeFree_helpText : EscapeFree helpText := by
  unfold helpText usage programName
  simp only [escapeFree_append, -String.reduceAppend]
  and_intros <;> exact escapeFree_ofList.2 (by decide)

/-- What the options make the program read has no escape characters: the path and the text of the
file, or else the input. -/
def Options.EscapeFree (options : Options) (files : Files) (input : String) : Prop :=
  match options.file with
  | some path => Text.EscapeFree path ∧ files.EscapeFree path
  | none => Text.EscapeFree input

theorem Runner.unpainted_leave (limits : Limits) {files : Files} {arguments : List String}
    {input : String}
    (h : ∀ options, Options.parse arguments = .ok (.run options) → options.EscapeFree files input) :
    (leave true limits files arguments input).unpainted =
      leave false limits files arguments input := by
  unfold leave
  cases hparse : Options.parse arguments with
  | error fault => simp only [run, hparse]; rfl
  | ok request =>
    cases request with
    | help =>
      have hhelp := Options.escapeFree_helpText.painted.unpainted_eq
      simp only [run, hparse, Aftermath.unpainted, Outcome.unpainted, hhelp]
    | run options =>
      have hsources := h options hparse
      rw [Options.EscapeFree] at hsources
      dsimp only
      cases hfile : options.file with
      | none =>
        rw [hfile] at hsources
        exact unpainted_leaveShell limits hsources options.showTree
      | some path =>
        rw [hfile] at hsources
        exact unpainted_leaveFile limits hsources.1 hsources.2 options.showTree

/-- Colours add nothing but escape sequences, as long as none come from outside. A shell answers any
lines in the same way and with the same texts: the states that its replies leave, with the scopes, the
results and the lines that the reporter knows, are the same, and so are their outcomes. A run of the
program prints the same texts, ends in the same way and leaves the same. -/
theorem colours_only_add_escapes (limits : Limits) :
    (∀ (showTree : Bool) (lines : List String), (∀ line ∈ lines, EscapeFree line) →
      let shell := Runner.newShell showTree
      (shell.replies true limits lines).map Shell.Reply.unpainted =
          shell.replies false limits lines ∧
        (shell.answerAll true limits lines).unpainted = shell.answerAll false limits lines) ∧
      ∀ (files : Files) (arguments : List String) (input : String),
        (∀ options, Options.parse arguments = .ok (.run options) →
          options.EscapeFree files input) →
        (∀ colours, (Runner.leave colours limits files arguments input).outcome =
            Runner.run colours limits files arguments input) ∧
          (Runner.leave true limits files arguments input).unpainted =
            Runner.leave false limits files arguments input := by
  constructor
  · intro showTree lines hlines shell
    have hshell : shell.EscapeFree := Runner.escapeFree_newShell showTree
    exact ⟨hshell.replies limits hlines, (hshell.answerAll limits hlines).unpainted_eq⟩
  · intro files arguments input hsources
    exact ⟨fun colours => Runner.outcome_leave colours limits files arguments input,
      Runner.unpainted_leave limits hsources⟩

/-- A line with a character that begins no token; and a file that asks for a line after its last one,
and divides by zero. -/
theorem colours_only_add_escapes_foreign_character :
    let limits : Limits := ⟨99, 99⟩
    let shell := Runner.newShell false
    let content := "let x = 2\nx / 0 \\"
    let files : Files := fun path => if path = "a.toy" then some content.toUTF8.toList else none
    (∀ line ∈ ["1 + $ 2"], EscapeFree line) ∧
      (shell.answerAll true limits ["1 + $ 2"]).printed =
        "> Traceback:\n  File '<in>', line 1:\n    1 + $ 2\n" ++
          "\x1b[1m\x1b[31merror: \x1b[0munexpected character '\x1b[1m$\x1b[0m' " ++
          "at position \x1b[1m4\x1b[0m\n" ++
          "  1 + \x1b[1m\x1b[31m$\x1b[0m 2\n      \x1b[1m\x1b[31m^\x1b[0m\n" ∧
      (shell.answerAll true limits ["1 + $ 2"]).unpainted =
        shell.answerAll false limits ["1 + $ 2"] ∧
      (∀ options, Options.parse ["a.toy"] = .ok (.run options) → options.EscapeFree files "") ∧
      (Runner.run true limits files ["a.toy"] "").output =
        "\x1b[1ma.toy:2:0: \x1b[0m\x1b[1m\x1b[35mwarning: \x1b[0m" ++
          "'\x1b[1ma.toy\x1b[0m' ends with a line continuation\n2\n" ++
          "Traceback:\n  File 'a.toy', line 2:\n    x / 0\n" ++
          "\x1b[1m\x1b[31merror: \x1b[0mcannot divide '\x1b[1m2\x1b[0m' by zero\n" ∧
      (Runner.run true limits files ["a.toy"] "").unpainted =
        Runner.run false limits files ["a.toy"] "" := by
  intro limits shell content files
  have hlines : ∀ line ∈ ["1 + $ 2"], EscapeFree line := by decide
  have hparse : Options.parse ["a.toy"] = .ok (.run { file := some "a.toy", showTree := false }) := by
    decide +kernel
  have hbytes : Text.Utf8.decode content.toUTF8.toList = .ok content.toList := by decide +kernel
  have hsources : ∀ options, Options.parse ["a.toy"] = .ok (.run options) →
      options.EscapeFree files "" := by
    intro options hoptions
    rw [hparse] at hoptions
    cases hoptions
    refine ⟨by decide, ?_⟩
    rintro _ ⟨⟩ text htext
    rw [hbytes] at htext
    cases htext
    decide
  obtain ⟨hshell, hrun⟩ := colours_only_add_escapes limits
  obtain ⟨-, hanswers⟩ := hshell false ["1 + $ 2"] hlines
  obtain ⟨houtcome, hleft⟩ := hrun files ["a.toy"] "" hsources
  refine ⟨hlines, by decide +kernel, hanswers, hsources, by decide +kernel, ?_⟩
  rw [← houtcome, ← houtcome, ← hleft]
  rfl

end LetLang
