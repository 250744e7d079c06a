import LetLang.Proofs.Sessions.Escapes
import LetLang.Proofs.Shells.Replies
/-!
# Shells with and without colours

As long as the lines have no escape characters, a shell with colours goes through the same states as
one without, its replies have the same outcomes, and they differ only in escape sequences.
-/
namespace LetLang

open Text

/-! ### Settling runs -/

namespace Session

/-- What becomes of a run does not depend on the colours. -/
theorem Run.settle_eq (colours : Bool) (run : Run) :
    run.settle colours =
      ((run.settle false).1, (run.settle colours).2.1, (run.settle false).2.2) := by
  rw [settle, settle, Reporter.settle_eq colours]

theorem Run.EscapeFree.settle {run : Run} (h : run.EscapeFree) :
    (run.settle false).1.EscapeFree ∧ Painted fun colours => (run.settle colours).2.1 := by
  constructor
  · exact { h.session with reporter := h.session.reporter.settle false _ }
  · exact h.printed.painted.append
      (Reporter.painted_settle h.session.reporter (Fault.forall_interruption h.fault))

end Session

namespace Shell

structure EscapeFree (shell : Shell) : Prop where
  session : shell.session.EscapeFree
  pending : Text.EscapeFree shell.pending
  prompt : Text.EscapeFree shell.prompt

/-- The reply with colours differs from the one without in what is printed only, and there only in
escape sequences. What comes next has no escape characters of its own. -/
structure Repainted (reply : Bool → Reply) : Prop where
  shell_eq : (reply true).shell = (reply false).shell
  outcome_eq : (reply true).outcome = (reply false).outcome
  printed : Painted fun colours => (reply colours).printed
  shell : (reply false).shell.EscapeFree
  fault : ∀ fault, (reply false).outcome = .fails fault → fault.EscapeFree

/-- The reply without its paint. -/
def Reply.unpainted (reply : Reply) : Reply :=
  { reply with printed := Text.unpainted reply.printed }

namespace Repainted

variable {reply : Bool → Reply}

theorem unpainted_eq (h : Repainted reply) : (reply true).unpainted = reply false := by
  rw [Reply.unpainted, h.printed.unpainted_eq, h.shell_eq, h.outcome_eq]

/-- Only what is printed depends on the colours. -/
theorem reply_eq (h : Repainted reply) (colours : Bool) :
    reply colours = { reply false with printed := (reply colours).printed } := by
  cases colours with
  | true =>
    dsimp only
    rw [← h.shell_eq, ← h.outcome_eq]
  | false => rfl

theorem of_forall {after : Shell} {outcome : Outcome} {printed : Bool → String}
    (hreply : ∀ colours, reply colours = { shell := after, printed := printed colours, outcome })
    (hprinted : Painted printed) (hafter : after.EscapeFree)
    (hfault : ∀ fault, outcome = .fails fault → fault.EscapeFree) : Repainted reply := by
  obtain rfl := funext hreply
  exact ⟨rfl, rfl, hprinted, hafter, hfault⟩

end Repainted

variable {shell : Shell} {line : String}

/-! ### Input -/

/-- What comes of a source is settled by its run: the state and the outcome do not depend on the
colours, and what is printed is the report of the run and the texts of the results. -/
theorem EscapeFree.runInput (h : shell.EscapeFree) (limits : Limits) {source : String}
    (hsource : Text.EscapeFree source) : Repainted (shell.runInput · limits source) := by
  let run := (shell.session.add source shell.firstLine).run limits
  have hrun : run.EscapeFree := (h.session.add hsource shell.firstLine).run limits
  obtain ⟨hsession, hprinted⟩ := hrun.settle
  rcases hbare : run.settle false with ⟨session, bare, verdict⟩
  rw [hbare] at hsession
  have hsettle (colours : Bool) :
      run.settle colours = (session, (run.settle colours).2.1, verdict) := by
    rw [run.settle_eq colours, hbare]
  have hstopped : EscapeFree { shell with session } := { h with session := hsession }
  cases verdict with
  | contained =>
    have hresults := Session.EscapeFree.printResults hsession
    have hshown := hresults.printed
    have hfault := hresults.fault
    rw [Session.printed_printResults] at hshown
    rw [Session.fault_printResults] at hfault
    refine .of_forall (fun colours => runInput_of_contained (hsettle colours))
      (hprinted.append hshown.painted) { h with session := hresults.session } ?_
    cases hlost : Session.resultsFault session.results with
    | none => rintro _ ⟨⟩
    | some fault =>
      rintro _ ⟨⟩
      exact hfault fault hlost
  | escapes =>
    cases hfault : run.fault with
    | none =>
      -- There is nothing to escape.
      rw [Session.Run.settle, hfault] at hbare
      cases hbare
    | some fault =>
      refine .of_forall (fun colours => runInput_of_escapes (hsettle colours) hfault) hprinted
        hstopped ?_
      rintro _ ⟨⟩
      exact hrun.fault fault hfault
  | exits =>
    have hexits (colours : Bool) : shell.runInput colours limits source =
        { shell := { shell with session }
          printed := (run.settle colours).2.1
          outcome := .exits } := by
      rw [Shell.runInput]
      dsimp only
      rw [show ((shell.session.add source shell.firstLine).run limits).settle colours = _ from
        hsettle colours]
    exact .of_forall hexits hprinted hstopped (by simp)
  | unwritten =>
    have hfails (colours : Bool) : shell.runInput colours limits source =
        { shell := { shell with session }
          printed := (run.settle colours).2.1
          outcome := .fails .numberTooLong } := by
      rw [Shell.runInput]
      dsimp only
      rw [show ((shell.session.add source shell.firstLine).run limits).settle colours = _ from
        hsettle colours]
    refine .of_forall hfails hprinted hstopped ?_
    rintro _ ⟨⟩
    exact Fault.escapeFree_numberTooLong

theorem EscapeFree.note (h : shell.EscapeFree) (hline : Text.EscapeFree line) :
    (shell.note line).1.EscapeFree ∧ ∀ source ∈ (shell.note line).2, Text.EscapeFree source := by
  have hprepared := notMem_prepare (by decide) hline (shell.pending ≠ "")
  have hprompts : Text.EscapeFree inputPrompt ∧ Text.EscapeFree continuationPrompt := by decide
  rw [Shell.note]
  dsimp only
  generalize Continuation.prepare line.toList (shell.pending ≠ "") = prepared at hprepared
  obtain ⟨bare, continued⟩ := prepared
  have hsource : Text.EscapeFree (shell.pending ++ String.ofList bare) :=
    escapeFree_append.2 ⟨h.pending, escapeFree_ofList.2 hprepared⟩
  cases continued with
  | true => exact ⟨⟨h.session, escapeFree_append.2 ⟨hsource, by decide⟩, hprompts.2⟩, by simp⟩
  | false =>
    refine ⟨⟨h.session, escapeFree_empty, hprompts.1⟩, ?_⟩
    rintro source ⟨⟩
    exact hsource

/-! ### Lines -/

theorem escapeFree_helpText : Text.EscapeFree helpText := by
  unfold helpText
  -- The lines are looked through one by one, as lists of characters.
  simp only [escapeFree_append, -String.reduceAppend]
  and_intros <;> exact escapeFree_ofList.2 (by decide)

theorem escapeFree_obey (shell : Shell) (command : Command) :
    Text.EscapeFree (shell.obey command).printed := by
  cases command with
  | nothing | exit => exact escapeFree_empty
  | help => exact escapeFree_append.2 ⟨escapeFree_helpText, by decide⟩
  | endOfInput => exact escapeFree_ofList.2 (by decide)

/-- A line without escape characters is answered alike with colours and without. -/
theorem EscapeFree.answer (h : shell.EscapeFree) (limits : Limits) (hline : Text.EscapeFree line) :
    Repainted (shell.answer · limits line) := by
  obtain ⟨hnoted, hsources⟩ := h.note hline
  unfold Shell.answer
  cases shell.heeded? line with
  | some command =>
    have hfault : ∀ fault, (shell.obey command).outcome = .fails fault → fault.EscapeFree := by
      intro fault heq
      cases command <;> cases heq
    exact ⟨rfl, rfl, (escapeFree_obey shell command).painted, (shell_obey shell command).symm ▸ h,
      hfault⟩
  | none =>
    unfold input
    rcases hnote : shell.note line with ⟨noted, _ | source⟩ <;> rw [hnote] at hnoted hsources
    · exact ⟨rfl, rfl, escapeFree_empty.painted, hnoted, by simp⟩
    · exact EscapeFree.runInput hnoted limits (hsources source rfl)

theorem answerAll_cons {colours : Bool} {limits : Limits} (lines : List String) {after : Shell}
    {printed : String} {outcome : Outcome} :
    shell.answer colours limits line = { shell := after, printed, outcome } →
      shell.answerAll colours limits (line :: lines) =
        match outcome with
        | .continues =>
          let rest := after.answerAll colours limits lines
          { rest with printed := shell.prompt ++ printed ++ rest.printed }
        | _ => { shell := after, printed := shell.prompt ++ printed, outcome } := by
  intro h
  cases outcome <;> simp only [Shell.answerAll, h]

theorem EscapeFree.answerAll (h : shell.EscapeFree) (limits : Limits) {lines : List String}
    (hlines : ∀ line ∈ lines, Text.EscapeFree line) :
    Repainted (shell.answerAll · limits lines) := by
  induction lines generalizing shell with
  | nil => exact ⟨rfl, rfl, escapeFree_empty.painted, h, by simp [Shell.answerAll]⟩
  | cons line lines ih =>
    rw [List.forall_mem_cons] at hlines
    have hreply := h.answer limits hlines.1
    have hprompted := h.prompt.painted.append hreply.printed
    have hall (colours : Bool) := answerAll_cons lines (hreply.reply_eq colours)
    simp only [hall]
    split
    · have hrest := ih hreply.shell hlines.2
      exact { hrest with printed := hprompted.append hrest.printed }
    · exact ⟨rfl, rfl, hprompted, hreply.shell, hreply.fault⟩

/-- Whatever the outcomes, lines without escape characters are answered one after the other alike
with colours and without. -/
theorem EscapeFree.replies (h : shell.EscapeFree) (limits : Limits) {lines : List String}
    (hlines : ∀ line ∈ lines, Text.EscapeFree line) :
    (shell.replies true limits lines).map Reply.unpainted = shell.replies false limits lines := by
  induction lines generalizing shell with
  | nil => rfl
  | cons line lines ih =>
    rw [List.forall_mem_cons] at hlines
    have hreply := h.answer limits hlines.1
    simp only [Shell.replies, List.map_cons]
    rw [hreply.unpainted_eq, hreply.shell_eq, ih hreply.shell hlines.2]

end Shell
end LetLang
