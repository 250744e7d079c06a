import LetLang.Proofs.Shells
/-!
# Where the input of a shell ends

A shell answers the lines that it reads until one of them stops it. Where the input ends it reads a
word instead of a line. The word is a command by itself; but while a line is wanted to continue the
ones before it, the word is that line, and becomes the end of the last source.
-/
namespace LetLang

namespace Shell

open Continuation Transcript

variable {colours : Bool} {limits : Limits} {shell : Shell} {transcript : Transcript}

/-! ### Lines that are answered -/

/-- The lines that a shell answers: those up to the first after which it does not go on. -/
def heard (colours : Bool) (limits : Limits) : Shell → List String → List String
  | _, [] => []
  | shell, line :: lines =>
    let reply := shell.answer colours limits line
    line :: if reply.outcome = .continues then heard colours limits reply.shell lines else []

theorem answerAll_of_continues {line : String} (lines : List String)
    (h : (shell.answer colours limits line).outcome = .continues) :
    let rest := (shell.answer colours limits line).shell.answerAll colours limits lines
    (shell.answerAll colours limits (line :: lines)).shell = rest.shell ∧
      (shell.answerAll colours limits (line :: lines)).outcome = rest.outcome := by
  dsimp only
  rw [answerAll]
  dsimp only
  rw [h]
  exact ⟨rfl, rfl⟩

theorem answerAll_of_not_continues {line : String} (lines : List String)
    (h : (shell.answer colours limits line).outcome ≠ .continues) :
    (shell.answerAll colours limits (line :: lines)).shell =
        (shell.answer colours limits line).shell ∧
      (shell.answerAll colours limits (line :: lines)).outcome =
        (shell.answer colours limits line).outcome := by
  rw [answerAll]
  dsimp only
  split
  · next hcontinues => exact absurd hcontinues h
  · exact ⟨rfl, rfl⟩

/-- The shell that is left when lines have been answered is the one after those that were heard. -/
theorem shell_answerAll (colours : Bool) (limits : Limits) (shell : Shell) (lines : List String) :
    (shell.answerAll colours limits lines).shell =
      shell.afterAll colours limits (shell.heard colours limits lines) := by
  induction lines generalizing shell with
  | nil => rfl
  | cons line lines ih =>
    by_cases hcontinues : (shell.answer colours limits line).outcome = .continues
    · rw [(answerAll_of_continues lines hcontinues).1, ih, heard, if_pos hcontinues]
      rfl
    · rw [(answerAll_of_not_continues lines hcontinues).1, heard, if_neg hcontinues]
      rfl

theorem heard_prefix_lines (colours : Bool) (limits : Limits) (shell : Shell)
    (lines : List String) : shell.heard colours limits lines <+: lines := by
  induction lines generalizing shell with
  | nil => exact List.prefix_rfl
  | cons line lines ih =>
    rw [heard, List.prefix_cons_inj]
    split
    · exact ih _
    · exact List.nil_prefix

/-- What is heard of more lines, if the shell goes on after the first ones. -/
theorem heard_append (colours : Bool) (limits : Limits) (shell : Shell)
    (lines more : List String) :
    shell.heard colours limits (lines ++ more) =
      shell.heard colours limits lines ++
        if (shell.answerAll colours limits lines).outcome = .continues then
          (shell.answerAll colours limits lines).shell.heard colours limits more
        else [] := by
  induction lines generalizing shell with
  | nil => rfl
  | cons line lines ih =>
    rw [List.cons_append, heard, heard]
    by_cases hcontinues : (shell.answer colours limits line).outcome = .continues
    · obtain ⟨hshell, houtcome⟩ := answerAll_of_continues lines hcontinues
      rw [if_pos hcontinues, if_pos hcontinues, ih, hshell, houtcome, List.cons_append]
    · obtain ⟨-, houtcome⟩ := answerAll_of_not_continues lines hcontinues
      rw [if_neg hcontinues, if_neg hcontinues, houtcome, if_neg hcontinues, List.append_nil]

theorem outcome_answerAll_append (colours : Bool) (limits : Limits) (shell : Shell)
    (lines more : List String) :
    (shell.answerAll colours limits (lines ++ more)).outcome =
      if (shell.answerAll colours limits lines).outcome = .continues then
        ((shell.answerAll colours limits lines).shell.answerAll colours limits more).outcome
      else (shell.answerAll colours limits lines).outcome := by
  induction lines generalizing shell with
  | nil => rfl
  | cons line lines ih =>
    rw [List.cons_append]
    by_cases hcontinues : (shell.answer colours limits line).outcome = .continues
    · obtain ⟨hshell, houtcome⟩ := answerAll_of_continues lines hcontinues
      rw [(answerAll_of_continues (lines ++ more) hcontinues).2, ih, hshell, houtcome]
    · have houtcome := (answerAll_of_not_continues lines hcontinues).2
      rw [(answerAll_of_not_continues (lines ++ more) hcontinues).2, houtcome, if_neg hcontinues]

/-! ### Groups of lines -/

/-- The shell that has answered a line holds the transcript after it, and the source that the line
adds is the group that is new in the transcript. -/
theorem Transcript.Holds.answer (h : transcript.Holds shell) (colours : Bool) (limits : Limits)
    (line : String) :
    (transcript.take line).Holds (shell.answer colours limits line).shell ∧
      (transcript.take line).closed.map joinGroup =
        transcript.closed.map joinGroup ++ (shell.added line).toList.map Prod.fst := by
  obtain ⟨session, hshell⟩ := answer_shell colours limits shell line
  rw [hshell]
  by_cases hheeded : shell.heeded? line = none
  · have hinput := h.heeded?_eq_none_iff.1 hheeded
    obtain ⟨hholds, hsource⟩ := h.note hinput
    rw [if_pos hheeded, added_of_heeded?_eq_none hheeded, hsource]
    refine ⟨⟨hholds.asks, hholds.pending_eq⟩, ?_⟩
    rw [take, if_neg hinput]
    split
    · exact (List.append_nil _).symm
    · exact List.map_append
  · have hpassed := not_not.1 (mt h.heeded?_eq_none_iff.2 hheeded)
    rw [if_neg hheeded, added_of_heeded?_ne_none hheeded, take, if_pos hpassed]
    exact ⟨⟨h.asks, h.pending_eq⟩, (List.append_nil _).symm⟩

/-- A shell that does not go on after a line has not left a group unfinished. -/
theorem Transcript.Holds.unfinished_eq_nil (h : transcript.Holds shell) {line : String}
    (hstops : (shell.answer colours limits line).outcome ≠ .continues) :
    (transcript.take line).unfinished = [] := by
  cases shell.answered colours limits line with
  | command hheeded _ _ =>
    have hpassed : transcript.unfinished = [] ∧ Passed line := by
      by_contra hinput
      rw [h.heeded?_eq_none_iff.2 hinput] at hheeded
      cases hheeded
    rw [take, if_pos hpassed]
    exact hpassed.1
  | continued _ _ _ hanswer =>
    rw [hanswer] at hstops
    exact absurd rfl hstops
  | completed hheeded _ hnote _ =>
    have hinput := h.heeded?_eq_none_iff.1 hheeded
    obtain ⟨-, hsource⟩ := h.note hinput
    rw [take, if_neg hinput]
    split
    · next hasks =>
      rw [if_pos hasks, hnote] at hsource
      cases hsource
    · rfl

theorem Transcript.Holds.afterAll (h : transcript.Holds shell) (colours : Bool) (limits : Limits)
    (lines : List String) :
    (lines.foldl take transcript).Holds (shell.afterAll colours limits lines) ∧
      (lines.foldl take transcript).closed.map joinGroup =
        transcript.closed.map joinGroup ++ (shell.addedAll colours limits lines).map Prod.fst := by
  induction lines generalizing transcript shell with
  | nil => exact ⟨h, (List.append_nil _).symm⟩
  | cons line lines ih =>
    obtain ⟨hreply, hadded⟩ := h.answer colours limits line
    obtain ⟨hrest, haddedRest⟩ := ih hreply
    refine ⟨hrest, ?_⟩
    rw [List.foldl_cons, haddedRest, hadded, List.append_assoc, ← List.map_append]
    rfl

/-- A shell that has stopped has not left a group unfinished. -/
theorem Transcript.Holds.unfinished_heard (h : transcript.Holds shell) {lines : List String}
    (hstops : (shell.answerAll colours limits lines).outcome ≠ .continues) :
    ((shell.heard colours limits lines).foldl take transcript).unfinished = [] := by
  induction lines generalizing transcript shell with
  | nil => exact absurd rfl hstops
  | cons line lines ih =>
    rw [heard]
    by_cases hcontinues : (shell.answer colours limits line).outcome = .continues
    · rw [if_pos hcontinues]
      rw [(answerAll_of_continues lines hcontinues).2] at hstops
      exact ih (h.answer colours limits line).1 hstops
    · rw [if_neg hcontinues]
      exact h.unfinished_eq_nil hcontinues

theorem Transcript.kept_take (transcript : Transcript) (line : String) :
    (transcript.take line).kept = transcript.kept ∨
      (transcript.take line).kept = transcript.kept ++ [line] := by
  rw [take]
  split
  · exact .inl rfl
  · right
    split <;> simp [kept]

/-- What a transcript keeps are lines that it was given, in their order. -/
theorem Transcript.kept_sublist (transcript : Transcript) (lines : List String) :
    (lines.foldl take transcript).kept.Sublist (transcript.kept ++ lines) := by
  induction lines generalizing transcript with
  | nil => simp
  | cons line lines ih =>
    refine (ih (transcript.take line)).trans ?_
    rcases transcript.kept_take line with hkept | hkept
    · rw [hkept]
      exact (List.sublist_cons_self line lines).append_left _
    · rw [hkept, List.append_assoc, List.singleton_append]

/-! ### The end of the input -/

/-- The word that stands for the end of the input is passed over, unless it continues a group, and
then it closes the group. -/
theorem Transcript.take_endOfInput (transcript : Transcript) :
    transcript.take endOfInput =
      if transcript.unfinished = [] then transcript
      else
        { closed := transcript.closed ++ [transcript.unfinished ++ [endOfInput]]
          unfinished := [] } := by
  have hpassed : Passed endOfInput := by decide +kernel
  have hcloses : (prepare endOfInput.toList true).2 = false := by decide +kernel
  by_cases hopen : transcript.unfinished = []
  · rw [take, if_pos ⟨hopen, hpassed⟩, if_pos hopen]
  · rw [take, if_neg (fun h => hopen h.1), if_neg hopen, decide_eq_true hopen, hcloses]
    rfl

theorem Transcript.unfinished_take_endOfInput (transcript : Transcript) :
    (transcript.take endOfInput).unfinished = [] := by
  rw [take_endOfInput]
  split
  · assumption
  · rfl

/-- A shell with no group unfinished stops at the end of its input. -/
theorem Transcript.Holds.outcome_endOfInput (h : transcript.Holds shell) (colours : Bool)
    (limits : Limits) (hclosed : transcript.unfinished = []) :
    (shell.answer colours limits endOfInput).outcome = .stops := by
  have hcommand : command? endOfInput = some .endOfInput := by decide +kernel
  rw [Shell.answer, heeded?, if_pos (h.pending_eq_empty_iff.2 hclosed), hcommand]
  rfl

/-- A shell that has come to the end of its input stops there, when it has read the word for it at
most twice; and the transcript takes it once. -/
theorem Transcript.Holds.heard_endOfInput (h : transcript.Holds shell) (colours : Bool)
    (limits : Limits) :
    ((shell.heard colours limits [endOfInput, endOfInput]).foldl take transcript =
        transcript.take endOfInput) ∧
      (shell.answerAll colours limits [endOfInput, endOfInput]).outcome ≠ .continues := by
  have hclosed := transcript.unfinished_take_endOfInput
  obtain ⟨hnext, -⟩ := h.answer colours limits endOfInput
  rw [heard]
  by_cases hcontinues : (shell.answer colours limits endOfInput).outcome = .continues
  · have hstops := hnext.outcome_endOfInput colours limits hclosed
    have hne : Outcome.stops ≠ Outcome.continues := by decide
    rw [if_pos hcontinues, (answerAll_of_continues _ hcontinues).2]
    constructor
    · rw [heard, hstops, if_neg hne, List.foldl_cons, List.foldl_cons, List.foldl_nil,
        Transcript.take_endOfInput (transcript.take endOfInput), if_pos hclosed]
    · rw [(answerAll_of_not_continues [] (by rw [hstops]; exact hne)).2, hstops]
      exact hne
  · rw [if_neg hcontinues, (answerAll_of_not_continues _ hcontinues).2]
    exact ⟨rfl, hcontinues⟩

/-- A shell that reads lines and then the end of its input stops, and its transcript takes the word
for the end once. -/
theorem Transcript.Holds.heard_lines_endOfInput (h : transcript.Holds shell) (colours : Bool)
    (limits : Limits) (lines : List String) :
    let all := lines ++ [endOfInput, endOfInput]
    (shell.heard colours limits all).foldl take transcript =
        ((shell.heard colours limits lines).foldl take transcript).take endOfInput ∧
      (shell.answerAll colours limits all).outcome ≠ .continues := by
  dsimp only
  rw [heard_append, outcome_answerAll_append, List.foldl_append]
  by_cases hcontinues : (shell.answerAll colours limits lines).outcome = .continues
  · obtain ⟨hholds, -⟩ := h.afterAll colours limits (shell.heard colours limits lines)
    rw [← shell_answerAll] at hholds
    rw [if_pos hcontinues, if_pos hcontinues]
    exact hholds.heard_endOfInput colours limits
  · rw [if_neg hcontinues, if_neg hcontinues, take_endOfInput, if_pos (h.unfinished_heard hcontinues)]
    exact ⟨rfl, hcontinues⟩

end Shell

/-- What a shell that reads an input runs. It stops on its own, and what it has then is what the lines
that it has heard lead to. The sources are those of the groups that the lines of the input close,
each line of which is one of the input; and if the input ends while a line is wanted, the lines that
wait and the word for the end of the input make up one more. -/
theorem end_of_input_closes_a_group (colours : Bool) (limits : Limits) (showTree : Bool)
    (input : String) :
    let first := Runner.newShell showTree
    let final := first.answerAll colours limits (Runner.shellLines input)
    let typed := (Text.heldLines input.toList).map String.ofList
    let heard := first.heard colours limits typed
    let transcript := heard.foldl Shell.Transcript.take .start
    let sources := first.addedAll colours limits
      (first.heard colours limits (Runner.shellLines input))
    final.outcome ≠ .continues ∧
      final.shell.session =
        first.session.keeping
          (first.session.books.enterAll limits first.session.root sources) ∧
      heard <+: typed ∧ transcript.kept.Sublist heard ∧
      sources.map Prod.fst =
        transcript.closed.map Shell.Transcript.joinGroup ++
          if transcript.unfinished = [] then []
          else [Shell.Transcript.joinGroup (transcript.unfinished ++ ["EOF"])] := by
  intro first final typed heard transcript sources
  let read := first.heard colours limits (Runner.shellLines input)
  have hstart : Shell.Transcript.start.Holds first := ⟨rfl, rfl⟩
  obtain ⟨hread, hstops⟩ := hstart.heard_lines_endOfInput colours limits typed
  obtain ⟨-, hsources⟩ := hstart.afterAll colours limits read
  refine ⟨hstops, ?_, first.heard_prefix_lines colours limits typed, ?_, ?_⟩
  · rw [show final.shell = _ from Shell.shell_answerAll colours limits first _]
    exact (Shell.session_afterAll colours limits showTree read).1
  · exact Shell.Transcript.kept_sublist .start heard
  · rw [show read.foldl _ _ = transcript.take Shell.endOfInput from hread,
      Shell.Transcript.take_endOfInput] at hsources
    rw [show sources.map Prod.fst = _ from hsources.symm]
    split
    · exact (List.append_nil _).symm
    · exact List.map_append

/-- An input whose only line asks for another one: the word for the end of the input is taken for a
name that the line has bound, and its value is printed. -/
theorem end_of_input_is_evaluated :
    let first := Runner.newShell false
    let input := "let EOF = 2 \\\n"
    Text.heldLines input.toList = ["let EOF = 2 \\".toList] ∧
      (first.addedAll false ⟨99, 99⟩
        (first.heard false ⟨99, 99⟩ (Runner.shellLines input))).map Prod.fst =
          ["let EOF = 2 \n EOF"] ∧
      Shell.Transcript.joinGroup ["let EOF = 2 \\"] = "let EOF = 2 " ∧
      Runner.run false ⟨99, 99⟩ (fun _ => none) [] input =
        { output := Shell.intro ++ "\n> . 2\n2\n> \n", errors := "", ending := .returned } := by
  decide +kernel

end LetLang
