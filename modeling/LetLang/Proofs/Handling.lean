import Mathlib.Data.List.Basic
import Mathlib.Data.List.Induction
import LetLang.Proofs.Reports
/-!
# Whole histories of reports

What a reporter knows after a history of actions depends on the history in a simple way: its files
are the paths that were mentioned, in the order of their first mention, and a file has a line exactly
if the last that happened to it, reports included, was the registration of that line. So a report
never shows a line twice, and never forgets a file.
-/
namespace LetLang

/-- An error that can be reported: one of the language, or one in free words. -/
inductive Thrown where
  | notice (notice : Notice)
  | draft (draft : Draft)
  deriving DecidableEq, Repr

/-- The error as it is to be shown, unless its pieces in bold do not fit its words. -/
def Thrown.shown (colours : Bool) : Thrown → Except Template.Fault Notice
  | .notice error => .ok error
  | .draft error => error.notice colours

/-- How a guarded block ends: by itself, or by an exception. A failure that is no error of the
language has a text, unless asking for it raises something else. -/
inductive Ending where
  | normal
  | exit
  | keyboard
  | recursion
  | failure (name : String) (message : Except Interruption String)
  | error (thrown : Thrown)
  deriving DecidableEq, Repr

/-- What can be done with a reporter. A warning that cannot be worded is what wording it raises. -/
inductive Action where
  | registerFile (path : String)
  | registerLine (path : String) (line : Option String) (number : Option Int)
  | removeLine (path : String)
  | warn (draft : Except Interruption Draft)
  | throw (thrown : Thrown)
  | block (ending : Ending)

namespace Action

/-- The path that the action says something about. -/
def mention? : Action → Option String
  | registerFile path | registerLine path _ _ | removeLine path => some path
  | _ => none

/-- The error that the action is to report, or what asking for its text raises. -/
def subject? : Action → Option (Except Interruption Thrown)
  | throw thrown | block (.error thrown) => some (.ok thrown)
  | block .keyboard => some (.ok (.notice Reporter.interruptNotice))
  | block .recursion => some (.ok (.notice Reporter.recursionNotice))
  | block (.failure name (.ok message)) =>
    some (.ok (.notice (Reporter.failureNotice name message)))
  | block (.failure _ (.error raised)) => some (.error raised)
  | _ => none

end Action

/-- What whoever acts meets with afterwards. -/
inductive Effect where
  | goesOn
  /-- The exception that ended the block goes on. -/
  | passes
  /-- The program ends with status 1. -/
  | exits
  /-- Something is raised in place of what was to be shown. -/
  | fails (raised : Interruption)
  deriving DecidableEq, Repr

structure Response where
  printed : String
  effect : Effect
  reporter : Reporter
  deriving DecidableEq, Repr

namespace Response

/-- Nothing is printed. -/
def quiet (reporter : Reporter) : Response :=
  { printed := "", effect := .goesOn, reporter }

def failed (reporter : Reporter) (raised : Interruption) : Response :=
  { printed := "", effect := .fails raised, reporter }

def ofSettled (settled : Settled) : Response :=
  { printed := settled.printed
    effect :=
      match settled.verdict with
      | .contained => .goesOn
      | .escapes => .passes
      | .exits => .exits
      | .unwritten => .fails Fault.numberTooLong.interruption
    reporter := settled.reporter }

end Response

namespace Reporter

/-- The response to an error: it is reported, if it can be shown. -/
def answerTo (colours : Bool) (reporter : Reporter) (report : Notice → Settled) : Thrown → Response
  | .notice notice => .ofSettled (report notice)
  | .draft draft =>
    match reporter.reportDraft colours draft with
    | .ok settled => .ofSettled settled
    | .error fault => .failed reporter fault.interruption

/-- One action. -/
def perform (colours : Bool) (reporter : Reporter) : Action → Response
  | .registerFile path => .quiet (reporter.registerFile path)
  | .registerLine path line number =>
    .quiet (reporter.register path line (number.map .given))
  | .removeLine path => .quiet (reporter.removeLine path)
  | .warn draft =>
    match draft.bind (reporter.warnDraft colours) with
    | .ok printed => { printed, effect := .goesOn, reporter }
    | .error raised => .failed reporter raised
  | .throw thrown => reporter.answerTo colours (reporter.report colours · .contained) thrown
  | .block .normal => .ofSettled (reporter.settle colours none)
  | .block .exit => .ofSettled (reporter.settle colours (some .exit))
  | .block .keyboard => .ofSettled (reporter.settle colours (some .keyboard))
  | .block .recursion => .ofSettled (reporter.settle colours (some .recursion))
  | .block (.failure name (.ok message)) =>
    .ofSettled (reporter.settle colours (some (.failure name message)))
  | .block (.failure _ (.error raised)) => .failed reporter raised
  | .block (.error thrown) =>
    reporter.answerTo colours (fun notice => reporter.settle colours (some (.notice notice))) thrown

/-- The reporter after a history of actions, on a fresh one. -/
def after (colours fatal : Bool) (history : List Action) : Reporter :=
  history.foldl (fun reporter action => (reporter.perform colours action).reporter) (new fatal)

end Reporter

/-! ### What one action does -/

namespace Action

/-- The exception of a block goes on, if it is a failure that is no error of the language. -/
def effect : Action → Effect
  | block (.failure _ _) => .passes
  | _ => .goesOn

/-- What a report decides, unless it ends the program. -/
def verdict : Action → Verdict
  | block (.failure _ _) => .escapes
  | _ => .contained

theorem effect_ofSettled_verdict (action : Action) (reporter : Reporter) (printed : String) :
    (Response.ofSettled ⟨reporter, printed, action.verdict⟩).effect = action.effect := by
  cases action with
  | block ending => cases ending <;> rfl
  | _ => rfl

end Action

namespace Reporter

/-- What the action comes to, if it is to report something: the notice that is shown, or what is
raised instead. The text of an exception is asked for first, then the lines are listed, and at last
the message is put in bold. -/
def attempt? (colours : Bool) (reporter : Reporter) (action : Action) :
    Option (Except Interruption Notice) :=
  match action.subject? with
  | none => none
  | some (.error raised) => some (.error raised)
  | some (.ok thrown) =>
    if reporter.canReport then some ((thrown.shown colours).mapError Template.Fault.interruption)
    else some (.error Fault.numberTooLong.interruption)

/-- The action is a report, which shows the notice. -/
def Reports (colours : Bool) (reporter : Reporter) (action : Action) (notice : Notice) : Prop :=
  reporter.attempt? colours action = some (.ok notice)

variable {colours : Bool} {reporter : Reporter} {action : Action} {notice : Notice}

theorem attempt?_of_shown {thrown : Thrown} (h : action.subject? = some (.ok thrown))
    (hlines : reporter.canReport = true) :
    reporter.attempt? colours action =
      some ((thrown.shown colours).mapError Template.Fault.interruption) := by
  simp only [attempt?, h, hlines, if_true]

theorem attempt?_of_unlisted {thrown : Thrown} (h : action.subject? = some (.ok thrown))
    (hlines : reporter.canReport = false) :
    reporter.attempt? colours action = some (.error Fault.numberTooLong.interruption) := by
  simp only [attempt?, h, hlines, Bool.false_eq_true, if_false]

theorem attempt?_eq_none_iff :
    reporter.attempt? colours action = none ↔ action.subject? = none := by
  rw [attempt?]
  split
  · next h => simp [h]
  · next h => simp [h]
  · next h =>
    rw [h]
    split <;> simp

theorem not_reports (h : action.subject? = none) (notice : Notice) :
    ¬ reporter.Reports colours action notice := by
  rw [Reports, attempt?_eq_none_iff.2 h]
  simp

/-- A report shows an error in a state in which the lines can be listed. -/
theorem reports_iff : reporter.Reports colours action notice ↔
    ∃ thrown, action.subject? = some (.ok thrown) ∧ reporter.canReport = true ∧
      thrown.shown colours = .ok notice := by
  constructor
  · intro h
    rw [Reports, attempt?] at h
    split at h
    · cases h
    · cases h
    · next thrown hsubject =>
      split at h
      · next hlines =>
        refine ⟨thrown, hsubject, hlines, ?_⟩
        cases hshown : thrown.shown colours with
        | ok shown => simpa [hshown, Except.mapError] using h
        | error => simp [hshown, Except.mapError] at h
      · cases h
  · rintro ⟨thrown, hsubject, hlines, hshown⟩
    rw [Reports, attempt?_of_shown hsubject hlines, hshown]
    rfl

/-- Reporting, by what becomes of the reporter and of whoever reports. -/
theorem ofSettled_report (hlines : reporter.canReport = true) (notice : Notice)
    (otherwise : Verdict) :
    Response.ofSettled (reporter.report colours notice otherwise) =
      if reporter.fatal then
        { printed := reporter.errorText colours notice, effect := .exits, reporter }
      else
        { printed := reporter.errorText colours notice
          effect := (Response.ofSettled ⟨reporter, "", otherwise⟩).effect
          reporter := reporter.forgetLines } := by
  rw [report, if_pos hlines]
  split <;> rfl

/-- The response to what an action is to report. -/
theorem perform_of_subject {thrown : Thrown} (h : action.subject? = some (.ok thrown)) :
    reporter.perform colours action =
      reporter.answerTo colours (reporter.report colours · action.verdict) thrown := by
  cases action with
  | registerFile | registerLine | removeLine | warn => cases h
  | throw =>
    cases h
    rfl
  | block ending =>
    cases ending with
    | normal | exit => cases h
    | keyboard | recursion | error =>
      cases h
      rfl
    | failure name message =>
      cases message with
      | error => cases h
      | ok =>
        cases h
        rfl

theorem perform_of_untold {raised : Interruption} (h : action.subject? = some (.error raised)) :
    reporter.perform colours action = .failed reporter raised := by
  cases action with
  | registerFile | registerLine | removeLine | warn | throw => cases h
  | block ending =>
    cases ending with
    | normal | exit | keyboard | recursion | error => cases h
    | failure name message =>
      cases message with
      | ok => cases h
      | error =>
        cases h
        rfl

theorem reporter_warn (draft : Except Interruption Draft) :
    (reporter.perform colours (.warn draft)).reporter = reporter := by
  rw [perform]
  split <;> rfl

/-- No block ends by a draft and lets it pass. -/
theorem verdict_of_draft {draft : Draft} (h : action.subject? = some (.ok (.draft draft))) :
    action.verdict = .contained := by
  cases action with
  | block ending =>
    cases ending with
    | failure name message => cases message <;> cases h
    | _ => rfl
  | _ => rfl

theorem perform_of_reports (h : reporter.Reports colours action notice) :
    reporter.perform colours action =
      if reporter.fatal then
        { printed := reporter.errorText colours notice, effect := .exits, reporter }
      else
        { printed := reporter.errorText colours notice
          effect := action.effect
          reporter := reporter.forgetLines } := by
  obtain ⟨thrown, hsubject, hlines, hshown⟩ := reports_iff.1 h
  have hanswer : reporter.perform colours action =
      .ofSettled (reporter.report colours notice action.verdict) := by
    rw [perform_of_subject hsubject]
    cases thrown with
    | notice =>
      cases hshown
      rfl
    | draft draft =>
      have hdraft : draft.notice colours = .ok notice := hshown
      rw [answerTo, reportDraft, if_pos hlines, hdraft, verdict_of_draft hsubject]
      rfl
  rw [hanswer, ofSettled_report hlines, action.effect_ofSettled_verdict]

/-- The lines are listed before anything else of a report is made. -/
theorem perform_of_unlisted {thrown : Thrown} (h : action.subject? = some (.ok thrown))
    (hlines : reporter.canReport = false) :
    reporter.perform colours action = .failed reporter Fault.numberTooLong.interruption := by
  rw [perform_of_subject h]
  cases thrown with
  | notice notice =>
    rw [answerTo, report, hlines, if_neg Bool.false_ne_true]
    rfl
  | draft draft =>
    rw [answerTo, reportDraft, hlines, if_neg Bool.false_ne_true]
    rfl

theorem perform_of_unshown {thrown : Thrown} {fault : Template.Fault}
    (h : action.subject? = some (.ok thrown)) (hlines : reporter.canReport = true)
    (hfault : thrown.shown colours = .error fault) :
    reporter.perform colours action = .failed reporter fault.interruption := by
  rw [perform_of_subject h]
  cases thrown with
  | notice => cases hfault
  | draft draft =>
    have hdraft : draft.notice colours = .error fault := hfault
    rw [answerTo, reportDraft, if_pos hlines, hdraft]
    rfl

/-- What comes in the way of a report, in the order in which it is met. -/
theorem attempt?_error_cases {raised : Interruption}
    (h : reporter.attempt? colours action = some (.error raised)) :
    action.subject? = some (.error raised) ∨
    (∃ thrown, action.subject? = some (.ok thrown) ∧ reporter.canReport = false ∧
      raised = Fault.numberTooLong.interruption) ∨
    ∃ thrown fault, action.subject? = some (.ok thrown) ∧ reporter.canReport = true ∧
      thrown.shown colours = .error fault ∧ raised = fault.interruption := by
  cases hsubject : action.subject? with
  | none => simp [attempt?_eq_none_iff.2 hsubject] at h
  | some subject =>
    cases subject with
    | error other =>
      rw [attempt?, hsubject] at h
      cases h
      exact .inl rfl
    | ok thrown =>
      cases hlines : reporter.canReport with
      | false =>
        rw [attempt?_of_unlisted hsubject hlines] at h
        cases h
        exact .inr (.inl ⟨thrown, rfl, rfl, rfl⟩)
      | true =>
        rw [attempt?_of_shown hsubject hlines] at h
        cases hshown : thrown.shown colours with
        | ok => simp [hshown, Except.mapError] at h
        | error fault =>
          rw [hshown] at h
          cases h
          exact .inr (.inr ⟨thrown, fault, rfl, rfl, hshown, rfl⟩)

/-- Where something else is raised than a report was to show, nothing happens but that. -/
theorem perform_of_attempt?_error {raised : Interruption}
    (h : reporter.attempt? colours action = some (.error raised)) :
    reporter.perform colours action = .failed reporter raised := by
  obtain huntold | ⟨thrown, hsubject, hlines, rfl⟩ |
    ⟨thrown, fault, hsubject, hlines, hfault, rfl⟩ := attempt?_error_cases h
  · exact perform_of_untold huntold
  · exact perform_of_unlisted hsubject hlines
  · exact perform_of_unshown hsubject hlines hfault

end Reporter

/-! ### Entries -/

namespace Reporter

/-- The paths that the entries are about. -/
def paths (entries : List TraceEntry) : List String :=
  entries.map (·.path)

@[simp] theorem paths_cons (entry : TraceEntry) (entries : List TraceEntry) :
    paths (entry :: entries) = entry.path :: paths entries := rfl

theorem mem_paths {entries : List TraceEntry} {path : String} :
    path ∈ paths entries ↔ ∃ entry ∈ entries, entry.path = path :=
  List.mem_map

theorem paths_setEntry (entry : TraceEntry) (entries : List TraceEntry) :
    paths (setEntry entry entries) =
      if entry.path ∈ paths entries then paths entries else paths entries ++ [entry.path] := by
  induction entries with
  | nil => simp [setEntry, paths]
  | cons old rest ih =>
    rw [setEntry]
    by_cases hpath : old.path = entry.path
    · simp [hpath]
    · rw [if_neg hpath, paths_cons, ih]
      simp only [paths_cons, List.mem_cons, Ne.symm hpath, false_or]
      split
      · rfl
      · rw [List.cons_append]

/-- If every path has one entry, then setting an entry replaces the one of its path. -/
theorem mem_setEntry {entry e : TraceEntry} {entries : List TraceEntry}
    (h : (paths entries).Nodup) :
    e ∈ setEntry entry entries ↔ e = entry ∨ e ∈ entries ∧ e.path ≠ entry.path := by
  induction entries with
  | nil => simp [setEntry]
  | cons old rest ih =>
    simp only [paths_cons, List.nodup_cons, mem_paths, not_exists, not_and] at h
    rw [setEntry]
    split
    · next hpath =>
      have hrest : e ∈ rest → e.path ≠ entry.path :=
        fun hmem heq => h.1 e hmem (heq.trans hpath.symm)
      simp only [List.mem_cons]
      constructor
      · rintro (rfl | hmem)
        · exact .inl rfl
        · exact .inr ⟨.inr hmem, hrest hmem⟩
      · rintro (rfl | ⟨rfl | hmem, hne⟩)
        · exact .inl rfl
        · exact absurd hpath hne
        · exact .inr hmem
    · next hpath =>
      simp only [List.mem_cons, ih h.2]
      constructor
      · rintro (rfl | rfl | ⟨hmem, hne⟩)
        · exact .inr ⟨.inl rfl, hpath⟩
        · exact .inl rfl
        · exact .inr ⟨.inr hmem, hne⟩
      · rintro (rfl | ⟨rfl | hmem, hne⟩)
        · exact .inr (.inl rfl)
        · exact .inl rfl
        · exact .inr (.inr ⟨hmem, hne⟩)

end Reporter

/-! ### Histories -/

/-- The last that happened to the path in a history is that the line was registered for it: since
then it was not mentioned, and nothing was reported. -/
inductive Current (colours : Bool) : List Action → String → String → Option Int → Prop
  | registered (history : List Action) (path line : String) (number : Option Int) :
      Current colours (history ++ [.registerLine path (some line) number]) path line number
  | kept {history path line number action} (h : Current colours history path line number)
      (hpath : action.mention? ≠ some path)
      (hreports : ∀ notice, ¬ (Reporter.after colours false history).Reports colours action notice) :
      Current colours (history ++ [action]) path line number

theorem current_concat {colours : Bool} {history : List Action} {action : Action}
    {path line : String} {number : Option Int} :
    Current colours (history ++ [action]) path line number ↔
      action = .registerLine path (some line) number ∨
      Current colours history path line number ∧ action.mention? ≠ some path ∧
        ∀ notice, ¬ (Reporter.after colours false history).Reports colours action notice := by
  constructor
  · generalize hlast : history ++ [action] = whole
    rintro (_ | ⟨h, hpath, hreports⟩)
    · exact .inl (List.cons.inj (List.append_inj' hlast rfl).2).1
    · obtain ⟨rfl, haction⟩ := List.append_inj' hlast rfl
      obtain rfl := (List.cons.inj haction).1
      exact .inr ⟨h, hpath, hreports⟩
  · rintro (rfl | ⟨h, hpath, hreports⟩)
    · exact .registered history path line number
    · exact .kept h hpath hreports

theorem Current.registerLine_mem {colours : Bool} {history : List Action} {path line : String}
    {number : Option Int} (h : Current colours history path line number) :
    .registerLine path (some line) number ∈ history := by
  induction h with
  | registered => simp
  | kept _ _ _ ih => exact List.mem_append_left _ ih

/-- The paths that a history mentions, in the order of their first mention. -/
def mentionedPaths (history : List Action) : List String :=
  (history.filterMap Action.mention?).eraseDups

theorem mentionedPaths_concat (history : List Action) (action : Action) :
    mentionedPaths (history ++ [action]) =
      match action.mention? with
      | none => mentionedPaths history
      | some path =>
        if path ∈ mentionedPaths history then mentionedPaths history
        else mentionedPaths history ++ [path] := by
  rw [mentionedPaths, List.filterMap_append, List.eraseDups_append]
  cases hpath : action.mention? with
  | none => simp [hpath, mentionedPaths]
  | some path =>
    simp only [List.filterMap_cons, hpath, List.filterMap_nil, mentionedPaths, List.mem_eraseDups]
    generalize history.filterMap Action.mention? = paths
    split
    · next hmem => simp [List.removeAll, hmem]
    · next hmem => simp [List.removeAll, hmem, List.eraseDups_cons]

theorem nodup_mentionedPaths (history : List Action) : (mentionedPaths history).Nodup := by
  induction history using List.reverseRecOn with
  | nil => simp [mentionedPaths]
  | append_singleton history action ih =>
    rw [mentionedPaths_concat]
    split
    · exact ih
    · split
      · exact ih
      · next path hpath hmem =>
        refine List.nodup_append.2 ⟨ih, by simp, ?_⟩
        intro other hother found hfound heq
        rw [List.mem_singleton.1 hfound] at heq
        exact hmem (heq ▸ hother)

/-- What a reporter knows, by the history of its actions. -/
structure Reporter.Knows (colours : Bool) (history : List Action) (reporter : Reporter) : Prop where
  fatal : reporter.fatal = false
  paths : Reporter.paths reporter.traceback = mentionedPaths history
  given : ∀ entry ∈ reporter.traceback, ∀ number ∈ entry.number, number = .given number.value
  lines : ∀ entry ∈ reporter.traceback, ∀ line number,
    entry.line = some line ∧ entry.number.map LineNumber.value = number ↔
      Current colours history entry.path line number

namespace Reporter

variable {colours : Bool} {history : List Action} {reporter : Reporter}

theorem Knows.setEntry (h : reporter.Knows colours history) {action : Action} {entry : TraceEntry}
    (hpath : action.mention? = some entry.path) (hsubject : action.subject? = none)
    (hgiven : ∀ number ∈ entry.number, number = .given number.value)
    (hentry : ∀ line number,
      action = .registerLine entry.path (some line) number ↔
        entry.line = some line ∧ entry.number.map LineNumber.value = number) :
    Knows colours (history ++ [action])
      { reporter with traceback := Reporter.setEntry entry reporter.traceback } := by
  have hnodup : (Reporter.paths reporter.traceback).Nodup := by
    rw [h.paths]
    exact nodup_mentionedPaths history
  refine ⟨h.fatal, ?_, ?_, ?_⟩
  · rw [paths_setEntry, h.paths, mentionedPaths_concat, hpath]
  · intro e he
    rcases (mem_setEntry hnodup).1 he with rfl | ⟨hmem, -⟩
    · exact hgiven
    · exact h.given e hmem
  · intro e he line number
    rw [current_concat, hpath]
    rcases (mem_setEntry hnodup).1 he with rfl | ⟨hmem, hne⟩
    · rw [hentry]
      simp
    · rw [h.lines e hmem]
      constructor
      · exact fun hcurrent => .inr ⟨hcurrent, by simpa using Ne.symm hne, not_reports hsubject⟩
      · rintro (rfl | ⟨hcurrent, -⟩)
        · exact absurd (Option.some.inj hpath) hne
        · exact hcurrent

theorem Knows.silent (h : reporter.Knows colours history) {action : Action}
    (hpath : action.mention? = none)
    (hreports : ∀ notice, ¬ (after colours false history).Reports colours action notice) :
    reporter.Knows colours (history ++ [action]) := by
  refine ⟨h.fatal, by rw [h.paths, mentionedPaths_concat, hpath], h.given, ?_⟩
  intro entry hentry line number
  rw [h.lines entry hentry, current_concat, hpath]
  constructor
  · exact fun hcurrent => .inr ⟨hcurrent, by simp, hreports⟩
  · rintro (rfl | ⟨hcurrent, -⟩)
    · cases hpath
    · exact hcurrent

theorem Knows.forget (h : reporter.Knows colours history) {action : Action} {notice : Notice}
    (hpath : action.mention? = none)
    (hreports : (after colours false history).Reports colours action notice) :
    reporter.forgetLines.Knows colours (history ++ [action]) := by
  refine ⟨h.fatal, ?_, ?_, ?_⟩
  · rw [mentionedPaths_concat, hpath, ← h.paths]
    simp [Reporter.paths, forgetLines, Function.comp_def]
  · intro entry hentry
    obtain ⟨old, -, rfl⟩ := List.mem_map.1 hentry
    simp
  · intro entry hentry line number
    obtain ⟨old, -, rfl⟩ := List.mem_map.1 hentry
    rw [current_concat]
    constructor
    · rintro ⟨hline, -⟩
      cases hline
    · rintro (rfl | ⟨-, -, hnone⟩)
      · cases hpath
      · exact absurd hreports (hnone notice)

theorem after_concat (colours fatal : Bool) (history : List Action) (action : Action) :
    after colours fatal (history ++ [action]) =
      ((after colours fatal history).perform colours action).reporter := by
  simp [after]

/-- One action more: an entry is set, the lines are forgotten, or nothing happens. -/
theorem Knows.concat (h : (after colours false history).Knows colours history) (action : Action) :
    (after colours false (history ++ [action])).Knows colours (history ++ [action]) := by
  rw [after_concat]
  cases hsubject : action.subject? with
  | none =>
    cases action with
    | registerFile | removeLine => exact h.setEntry rfl hsubject (by simp) (by simp)
    | registerLine path line number =>
      exact h.setEntry rfl hsubject (by simp [LineNumber.value])
        (by simp [Function.comp_def, LineNumber.value])
    | warn draft =>
      rw [reporter_warn]
      exact h.silent rfl (not_reports hsubject)
    | throw => cases hsubject
    | block ending =>
      cases ending with
      | normal | exit => exact h.silent rfl (not_reports hsubject)
      | keyboard | recursion | error => cases hsubject
      | failure name message => cases message <;> cases hsubject
  | some subject =>
    have hpath : action.mention? = none := by
      cases action with
      | registerFile | registerLine | removeLine | warn => cases hsubject
      | throw | block => rfl
    cases hattempt : (after colours false history).attempt? colours action with
    | none => simp [attempt?_eq_none_iff.1 hattempt] at hsubject
    | some attempt =>
      cases attempt with
      | ok notice =>
        rw [perform_of_reports hattempt, h.fatal]
        exact h.forget hpath hattempt
      | error raised =>
        rw [perform_of_attempt?_error hattempt]
        exact h.silent hpath fun notice hreports => by
          rw [Reports, hattempt] at hreports
          cases hreports

theorem knows_after (colours : Bool) (history : List Action) :
    (after colours false history).Knows colours history := by
  induction history using List.reverseRecOn with
  | nil => exact ⟨rfl, rfl, by simp [after, new], by simp [after, new]⟩
  | append_singleton history action ih => exact ih.concat action

/-! ### What reports list -/

/-- The text that shows a line of a file. -/
def lineText : String × String × Option Int → String
  | (path, line, number) =>
    "  File '" ++ path ++ "', line " ++ (number.map Numeral.text).getD "None" ++ ":\n" ++
      "    " ++ line ++ "\n"

/-- The text that lists lines of files. -/
def listing (listed : List (String × String × Option Int)) : String :=
  if listed = [] then "" else "Traceback:\n" ++ String.join (listed.map lineText)

/-- The line of an entry, unless it is empty. -/
def listed? (entry : TraceEntry) : Option (String × String × Option Int) :=
  match entry.line with
  | none => none
  | some line =>
    if line = "" then none else some (entry.path, line, entry.number.map LineNumber.value)

theorem listed?_eq_some {entry : TraceEntry} {path line : String} {number : Option Int} :
    listed? entry = some (path, line, number) ↔
      entry.path = path ∧ line ≠ "" ∧ entry.line = some line ∧
        entry.number.map LineNumber.value = number := by
  rw [listed?]
  cases hline : entry.line with
  | none => simp
  | some found =>
    by_cases hempty : found = "" <;> simp only [hempty, if_true, if_false]
    · simp
      grind
    · simp
      grind

theorem numberText_eq (number : Option LineNumber) :
    numberText number = ((number.map LineNumber.value).map Numeral.text).getD "None" := by
  cases number <;> rfl

theorem join_entryText (entries : List TraceEntry) :
    String.join (entries.map entryText) = String.join ((entries.filterMap listed?).map lineText) := by
  induction entries with
  | nil => rfl
  | cons entry entries ih =>
    have hentry : entryText entry = ((listed? entry).map lineText).getD "" := by
      rw [entryText, listed?]
      cases entry.line with
      | none => rfl
      | some line => by_cases hempty : line = "" <;> simp [hempty, lineText, numberText_eq]
    rw [List.map_cons, String.join_cons, ih, hentry]
    cases hlisted : listed? entry <;> simp [hlisted]

theorem tracebackText_eq_listing (entries : List TraceEntry) :
    tracebackText entries = listing (entries.filterMap listed?) := by
  rw [tracebackText, listing, join_entryText]
  cases entries.filterMap listed? with
  | nil => rfl
  | cons first others =>
    have hne : String.join ((first :: others).map lineText) ≠ "" := by
      intro hempty
      have hchars := congrArg String.toList hempty
      simp [lineText] at hchars
    rw [if_neg hne, if_neg (by simp)]

theorem errorText_eq (colours : Bool) (reporter : Reporter) (notice : Notice) :
    reporter.errorText colours notice =
      listing (reporter.traceback.filterMap listed?) ++ (new true).errorText colours notice := by
  rw [errorText, tracebackText_eq_listing]
  have hnone : tracebackText (new true).traceback = "" := rfl
  rw [errorText, hnone]
  simp only [String.append_assoc, String.empty_append]

theorem sublist_listed (entries : List TraceEntry) :
    ((entries.filterMap listed?).map Prod.fst).Sublist (paths entries) := by
  induction entries with
  | nil => exact List.Sublist.refl _
  | cons entry entries ih =>
    cases hlisted : listed? entry with
    | none => simpa [hlisted] using ih.cons entry.path
    | some found =>
      obtain ⟨path, line, number⟩ := found
      obtain ⟨rfl, -⟩ := listed?_eq_some.1 hlisted
      simpa [hlisted] using ih.cons_cons entry.path

/-- What a report lists are the lines that are current, file by file. -/
theorem Knows.listed (h : reporter.Knows colours history) :
    ((reporter.traceback.filterMap listed?).map Prod.fst).Sublist (mentionedPaths history) ∧
      ∀ path line number, (path, line, number) ∈ reporter.traceback.filterMap listed? ↔
        line ≠ "" ∧ Current colours history path line number := by
  constructor
  · rw [← h.paths]
    exact sublist_listed reporter.traceback
  · intro path line number
    simp only [List.mem_filterMap, listed?_eq_some]
    constructor
    · rintro ⟨entry, hentry, rfl, hne, hline⟩
      exact ⟨hne, (h.lines entry hentry line number).1 hline⟩
    · rintro ⟨hne, hcurrent⟩
      have hmem : path ∈ Reporter.paths reporter.traceback := by
        rw [h.paths, mentionedPaths, List.mem_eraseDups, List.mem_filterMap]
        exact ⟨.registerLine path (some line) number, hcurrent.registerLine_mem, rfl⟩
      obtain ⟨entry, hentry, rfl⟩ := mem_paths.1 hmem
      exact ⟨entry, hentry, rfl, hne, (h.lines entry hentry line number).2 hcurrent⟩

end Reporter

/-! ### Errors that can be shown -/

namespace Thrown

/-- The error is one that could be made: its message could be filled. -/
def Made : Thrown → Prop
  | .notice _ => True
  | .draft error =>
    ∃ words pieces source start stop diagnosed internal,
      Draft.make words pieces source start stop diagnosed internal = .ok error

/-- All fields of the error's words are plain ones. -/
def Plain : Thrown → Prop
  | .notice _ => True
  | .draft error =>
    ∃ segments : List Segment, (∀ segment ∈ segments, segment.Braceless) ∧
      error.words = String.join (segments.map Segment.pattern) ∧
      error.pieces = segments.filterMap Segment.piece?

theorem exists_shown_of_format {draft : Draft} {colours : Bool} {text : String}
    (h : Template.format draft.words (draft.pieces.map (Ink.plain.paint colours)) = .ok text) :
    ∃ notice, (Thrown.draft draft).shown colours = .ok notice := by
  rw [shown, Draft.notice, Draft.highlighted, h]
  exact ⟨_, rfl⟩

/-- Without colours, whatever could be made can be shown. -/
theorem Made.exists_shown {thrown : Thrown} (h : thrown.Made) :
    ∃ notice, thrown.shown false = .ok notice := by
  cases thrown with
  | notice error => exact ⟨error, rfl⟩
  | draft error =>
    obtain ⟨words, pieces, source, start, stop, diagnosed, internal, hmake⟩ := h
    rw [Draft.make] at hmake
    split at hmake
    · cases hmake
    · next message hformat =>
      cases hmake
      have hplain : pieces.map (Ink.plain.paint false) = pieces := List.map_id pieces
      rw [← hplain] at hformat
      exact exists_shown_of_format hformat

/-- Errors with plain fields can be shown in any case. -/
theorem Plain.exists_shown {thrown : Thrown} (h : thrown.Plain) (colours : Bool) :
    ∃ notice, thrown.shown colours = .ok notice := by
  cases thrown with
  | notice error => exact ⟨error, rfl⟩
  | draft error =>
    obtain ⟨segments, hsegments, hwords, hpieces⟩ := h
    have hfillable := (@Notice.fillable (Notice.plain segments) hsegments).highlighted colours
    apply exists_shown_of_format
    rw [hwords, hpieces]
    exact hfillable

end Thrown

/-! ### The reports of a history -/

namespace Reporter

variable {colours : Bool} {history : List Action} {reporter : Reporter}

theorem fatal_perform (colours : Bool) (reporter : Reporter) (action : Action) :
    (reporter.perform colours action).reporter.fatal = reporter.fatal := by
  cases hattempt : reporter.attempt? colours action with
  | none =>
    have hsubject := attempt?_eq_none_iff.1 hattempt
    cases action with
    | registerFile | registerLine | removeLine => rfl
    | warn draft => rw [reporter_warn]
    | throw => cases hsubject
    | block ending =>
      cases ending with
      | normal | exit => rfl
      | keyboard | recursion | error => cases hsubject
      | failure name message => cases message <;> cases hsubject
  | some attempt =>
    cases attempt with
    | ok notice =>
      rw [perform_of_reports hattempt]
      split <;> rfl
    | error raised => rw [perform_of_attempt?_error hattempt, Response.failed]

theorem fatal_after (colours fatal : Bool) (history : List Action) :
    (after colours fatal history).fatal = fatal := by
  induction history using List.reverseRecOn with
  | nil => rfl
  | append_singleton history action ih => rw [after_concat, fatal_perform, ih]

/-- A block lets pass what is no error of the language. -/
theorem passes_iff (h : reporter.fatal = false) (ending : Ending) :
    (reporter.perform colours (.block ending)).effect = .passes ↔
      ending = .exit ∨ ∃ name message, ending = .failure name message ∧
        ∃ notice, reporter.Reports colours (.block ending) notice := by
  cases hattempt : reporter.attempt? colours (.block ending) with
  | none =>
    have hsubject := attempt?_eq_none_iff.1 hattempt
    cases ending with
    | normal | exit => simp [Reports, hattempt, perform, settle, Response.ofSettled]
    | keyboard | recursion | error => cases hsubject
    | failure name message => cases message <;> cases hsubject
  | some attempt =>
    cases attempt with
    | ok notice =>
      rw [perform_of_reports hattempt, h, if_neg Bool.false_ne_true]
      cases ending with
      | normal | exit => cases hattempt
      | keyboard | recursion | error => simp [Action.effect]
      | failure name message => simp [Action.effect, Reports, hattempt]
    | error raised =>
      rw [perform_of_attempt?_error hattempt]
      cases ending with
      | exit => cases hattempt
      | _ => simp [Response.failed, Reports, hattempt]

end Reporter

/-- The number of a line that is current is too long to be written. -/
def Unlistable (colours : Bool) (history : List Action) : Prop :=
  ∃ path line number, line ≠ "" ∧ Current colours history path line (some number) ∧
    Numeral.text? number = none

/-- What comes in the way of the report that the action is to be: the exception of the block has no
text, the number of a line cannot be written, or the message cannot be filled in bold. -/
inductive Hindered (colours : Bool) (history : List Action) (action : Action) : Interruption → Prop
  | untold {raised} (h : action.subject? = some (.error raised)) :
      Hindered colours history action raised
  | unlisted {thrown} (h : action.subject? = some (.ok thrown))
      (hlines : Unlistable colours history) :
      Hindered colours history action Fault.numberTooLong.interruption
  | unshown {thrown fault} (h : action.subject? = some (.ok thrown))
      (hlines : ¬ Unlistable colours history) (hshown : thrown.shown colours = .error fault) :
      Hindered colours history action fault.interruption

namespace Reporter

variable {colours : Bool} {history : List Action} {reporter : Reporter} {action : Action}

theorem entryWritable_eq_false_iff {entry : TraceEntry}
    (hgiven : ∀ number ∈ entry.number, number = .given number.value) :
    entryWritable entry = false ↔
      ∃ path line number, listed? entry = some (path, line, some number) ∧
        Numeral.text? number = none := by
  rw [entryWritable, listed?]
  cases entry.line with
  | none => simp
  | some line =>
    by_cases hempty : line = ""
    · simp [hempty]
    · cases hnumber : entry.number with
      | none => simp
      | some number =>
        rw [hgiven number hnumber]
        simp [hempty, LineNumber.writable, LineNumber.value]

/-- The lines can be listed if the numbers of all current lines can be written. -/
theorem Knows.canReport_iff (h : reporter.Knows colours history) :
    reporter.canReport = true ↔ ¬ Unlistable colours history := by
  have hlisted := h.listed.2
  simp only [List.mem_filterMap] at hlisted
  rw [← Bool.not_eq_false, not_iff_not, canReport, List.all_eq_false, Unlistable]
  constructor
  · rintro ⟨entry, hentry, hfalse⟩
    rw [Bool.not_eq_true, entryWritable_eq_false_iff (h.given entry hentry)] at hfalse
    obtain ⟨path, line, number, hshown, hlong⟩ := hfalse
    obtain ⟨hne, hcurrent⟩ := (hlisted path line (some number)).1 ⟨entry, hentry, hshown⟩
    exact ⟨path, line, number, hne, hcurrent, hlong⟩
  · rintro ⟨path, line, number, hne, hcurrent, hlong⟩
    obtain ⟨entry, hentry, hshown⟩ := (hlisted path line (some number)).2 ⟨hne, hcurrent⟩
    refine ⟨entry, hentry, ?_⟩
    rw [Bool.not_eq_true, entryWritable_eq_false_iff (h.given entry hentry)]
    exact ⟨path, line, number, hshown, hlong⟩

theorem hindered_iff {raised : Interruption} :
    Hindered colours history action raised ↔
      (after colours false history).attempt? colours action = some (.error raised) := by
  have hlines := (knows_after colours history).canReport_iff
  constructor
  · rintro (hsubject | ⟨hsubject, hlong⟩ | ⟨hsubject, hshort, hshown⟩)
    · rw [attempt?, hsubject]
    · have hfalse := (not_congr hlines).2 (not_not_intro hlong)
      exact attempt?_of_unlisted hsubject (Bool.not_eq_true _ ▸ hfalse)
    · rw [attempt?_of_shown hsubject (hlines.2 hshort), hshown]
      rfl
  · intro h
    obtain huntold | ⟨thrown, hsubject, hfalse, rfl⟩ |
      ⟨thrown, fault, hsubject, hcan, hshown, rfl⟩ := attempt?_error_cases h
    · exact .untold huntold
    · exact .unlisted hsubject (not_not.1 (mt hlines.2 (ne_true_of_eq_false hfalse)))
    · exact .unshown hsubject (hlines.1 hcan) hshown

end Reporter

/-- After a history of actions on a reporter that goes on, its files are those mentioned, in order,
and a report lists just the current lines of them and then forgets all lines. An action that is to
report something is a report, unless it is hindered: then it raises what hinders it, prints nothing
and changes nothing. A message hinders no report without colours, nor if its fields are plain. A
block lets pass a request to exit, which is no report, and, once reported, failures that are no
errors of the language; it contains everything else that it reports. If reports end the program, they
do just that. -/
theorem reports_are_never_stale (colours : Bool) (history : List Action) (action : Action) :
    let reporter := Reporter.after colours false history
    let response := reporter.perform colours action
    Reporter.paths reporter.traceback = mentionedPaths history ∧
    (∀ notice, reporter.Reports colours action notice →
      (∃ listed : List (String × String × Option Int),
        (listed.map Prod.fst).Sublist (mentionedPaths history) ∧
        (∀ path line number, (path, line, number) ∈ listed ↔
          line ≠ "" ∧ Current colours history path line number) ∧
        response.printed =
          Reporter.listing listed ++ (Reporter.new true).errorText colours notice) ∧
      response.effect = action.effect ∧
      response.reporter =
        { fatal := false
          traceback :=
            (mentionedPaths history).map fun path => { path, line := none, number := none } }) ∧
    (action.subject? ≠ none →
      (∃ notice, reporter.Reports colours action notice) ∨
        ∃ raised, Hindered colours history action raised) ∧
    (∀ raised, Hindered colours history action raised →
      (∀ notice, ¬ reporter.Reports colours action notice) ∧ response = .failed reporter raised) ∧
    (∀ thrown fault, Thrown.shown colours thrown = .error fault →
      ¬ (thrown.Made ∧ colours = false) ∧ ¬ thrown.Plain) ∧
    (∀ ending, action = .block ending →
      (ending = .normal → response = .quiet reporter) ∧
      (ending = .exit → response = { printed := "", effect := .passes, reporter }) ∧
      (response.effect = .passes ↔
        ending = .exit ∨ ∃ name message, ending = .failure name message ∧
          ∃ notice, reporter.Reports colours action notice)) ∧
    let last := Reporter.after colours true history
    (∀ notice, last.Reports colours action notice →
      (last.perform colours action).effect = .exits ∧
        (last.perform colours action).reporter = last) ∧
    ∀ raised, last.attempt? colours action = some (.error raised) →
      last.perform colours action = .failed last raised := by
  intro reporter response
  have hknows : reporter.Knows colours history := Reporter.knows_after colours history
  refine ⟨hknows.paths, ?_, ?_, ?_, ?_, ?_, ?_⟩
  · intro notice hreports
    have hresponse : response = _ := Reporter.perform_of_reports hreports
    rw [hknows.fatal, if_neg Bool.false_ne_true] at hresponse
    rw [hresponse]
    refine ⟨⟨_, hknows.listed.1, hknows.listed.2, Reporter.errorText_eq colours reporter notice⟩,
      rfl, ?_⟩
    rw [Reporter.forgetLines, hknows.fatal, ← hknows.paths, Reporter.paths, List.map_map]
    rfl
  · intro hsubject
    cases hattempt : reporter.attempt? colours action with
    | none => exact absurd (Reporter.attempt?_eq_none_iff.1 hattempt) hsubject
    | some attempt =>
      cases attempt with
      | ok notice => exact .inl ⟨notice, hattempt⟩
      | error raised => exact .inr ⟨raised, Reporter.hindered_iff.2 hattempt⟩
  · intro raised hhindered
    have hattempt := Reporter.hindered_iff.1 hhindered
    refine ⟨?_, Reporter.perform_of_attempt?_error hattempt⟩
    intro notice hreports
    cases hreports.symm.trans hattempt
  · intro thrown fault hfault
    constructor
    · rintro ⟨hmade, rfl⟩
      obtain ⟨notice, hshown⟩ := hmade.exists_shown
      cases hfault.symm.trans hshown
    · intro hplain
      obtain ⟨notice, hshown⟩ := hplain.exists_shown colours
      cases hfault.symm.trans hshown
  · rintro ending rfl
    refine ⟨?_, ?_, Reporter.passes_iff hknows.fatal ending⟩ <;> rintro rfl <;> rfl
  · intro last
    constructor
    · intro notice hreports
      rw [Reporter.perform_of_reports hreports,
        if_pos (Reporter.fatal_after colours true history)]
      exact ⟨rfl, rfl⟩
    · exact fun raised hattempt => Reporter.perform_of_attempt?_error hattempt

/-- A line is reported once, and then its file is known without it. -/
theorem reports_are_never_stale_division :
    let error := (LanguageError.divisionByZero "4").notice
    let history := [Action.registerFile "b", .registerLine "a" (some "4 / 0") (some 2),
      .registerLine "b" (some "x") none, .removeLine "b"]
    let reporter := Reporter.after false false history
    reporter.Reports false (.throw (.notice error)) error ∧
    (reporter.perform false (.throw (.notice error))).reporter =
      { fatal := false
        traceback := [⟨"b", none, none⟩, ⟨"a", none, none⟩] } := by
  intro error history reporter
  have hreports : reporter.Reports false (.throw (.notice error)) error :=
    Reporter.reports_iff.2 ⟨_, rfl, by decide +kernel, rfl⟩
  refine ⟨hreports, ?_⟩
  have hfiles : mentionedPaths history = ["b", "a"] := by decide
  have hreporter := ((reports_are_never_stale false history (.throw (.notice error))).2.1 error
    hreports).2.2
  rw [hfiles] at hreporter
  exact hreporter

/-- Three exceptions that are not reported, while the line is kept. With colours, an error that has
one piece in the layout of another can be made, but not be shown. An error cannot be reported with a
line whose number has too many digits. And a failure about such a number has no text. -/
theorem some_exceptions_are_not_reported :
    let draft : Draft :=
      { words := "\x7b:\x7b\x7d\x7d", pieces := ["a", "5"], message := "a    ", source := ""
        start := 0, stop := 0, diagnosed := false, internal := false }
    let error := (LanguageError.divisionByZero "4").notice
    let tooLong := Fault.numberTooLong.interruption
    let short := Reporter.after true false [.registerLine "a" (some "x") (some 1)]
    let long :=
      Reporter.after false false [.registerLine "a" (some "x") (some Numeral.bound)]
    Draft.make draft.words draft.pieces "" 0 (-1) true false = .ok draft ∧
    (∃ fault : Template.Fault,
      short.perform true (.throw (.draft draft)) = .failed short fault.interruption) ∧
    long.perform false (.throw (.notice error)) = .failed long tooLong ∧
    short.perform false (.block (.failure "KeyError" (.error tooLong))) = .failed short tooLong ∧
    short.traceback = [⟨"a", some "x", some (.given 1)⟩] ∧
    long.traceback = [⟨"a", some "x", some (.given Numeral.bound)⟩] := by
  refine ⟨by decide +kernel, ⟨.subject (.layout (.invalid "\x1b[1m5\x1b[0m".toList .text)), ?_⟩, ?_,
    rfl, rfl, rfl⟩
  · decide +kernel
  · decide +kernel

end LetLang
