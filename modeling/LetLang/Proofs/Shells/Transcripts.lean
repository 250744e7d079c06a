import LetLang.Shell
/-!
# Transcripts of a shell

What a shell has been given, without its commands: groups of lines, in each of which every line but
the last asks for another one, and the lines of a group that is not finished. What the shell knows
of its input, its session aside, is computed from the transcript alone, and a line takes what
belongs to the transcript before it to what belongs to the one after it.
-/
namespace LetLang

open Continuation

/-! ### Lines of files -/

def OneLine (line : String) : Prop :=
  '\r' ∉ line.toList ∧ '\n' ∉ line.toList

instance (line : String) : Decidable (OneLine line) :=
  inferInstanceAs (Decidable (_ ∧ _))

theorem unifyLineBreaks_of_notMem {cs : List Char} : '\r' ∉ cs → Text.unifyLineBreaks cs = cs := by
  fun_induction Text.unifyLineBreaks cs with
  | case1 => simp
  | case2 rest ih => simp
  | case3 rest hne ih => simp
  | case4 c rest hne hne' ih =>
    intro h
    rw [ih (List.not_mem_of_not_mem_cons h)]

theorem heldLines_append {line : List Char} (h : '\n' ∉ line) (rest : List Char) :
    Text.heldLines (line ++ '\n' :: rest) = line :: Text.heldLines rest := by
  induction line with
  | nil => simp [Text.heldLines]
  | cons c line ih =>
    have hc : c ≠ '\n' := by
      intro heq
      simp [heq] at h
    have htail := ih (List.not_mem_of_not_mem_cons h)
    rw [List.cons_append, Text.heldLines, if_neg hc, htail]

/-- The text of a file that holds the lines, each with a line feed after it. -/
def fileText (lines : List String) : List Char :=
  lines.flatMap (·.toList ++ ['\n'])

theorem heldLines_fileText {lines : List String} (h : ∀ line ∈ lines, OneLine line) :
    Text.heldLines (fileText lines) = lines.map String.toList := by
  induction lines with
  | nil => rfl
  | cons line lines ih =>
    rw [List.forall_mem_cons] at h
    have htext : fileText (line :: lines) = line.toList ++ '\n' :: fileText lines := by
      simp [fileText]
    rw [htext, heldLines_append h.1.2, ih h.2, List.map_cons]

theorem notMem_fileText {lines : List String} (h : ∀ line ∈ lines, OneLine line) :
    '\r' ∉ fileText lines := by
  intro hmem
  obtain ⟨line, hline, hin⟩ := List.mem_flatMap.1 hmem
  have hnot := (h line hline).1
  simp at hin
  exact hnot hin

theorem fileLines_fileText {lines : List String} (h : ∀ line ∈ lines, OneLine line) :
    Session.fileLines (fileText lines) = prepareAll false (lines.map String.toList) := by
  rw [Session.fileLines, unifyLineBreaks_of_notMem (notMem_fileText h), heldLines_fileText h]

/-! ### Lines one after the other -/

theorem prepareAll_append (continuing : Bool) (lines : List (List Char)) (line : List Char) :
    prepareAll continuing (lines ++ [line]) =
      let before := prepareAll continuing lines
      let last := prepare line before.2
      (before.1 ++ [last.1], last.2) := by
  induction lines generalizing continuing with
  | nil => rfl
  | cons first lines ih =>
    have hrest := ih (prepare first continuing).2
    simp only [List.cons_append, prepareAll, hrest]

theorem length_prepareAll (continuing : Bool) (lines : List (List Char)) :
    (prepareAll continuing lines).1.length = lines.length := by
  induction lines generalizing continuing with
  | nil => rfl
  | cons line lines ih =>
    rw [prepareAll, List.length_cons, List.length_cons, ← ih]

theorem joinLines_append (lines : List (List Char)) (line : List Char) :
    Session.joinLines (lines ++ [line]) =
      Session.joinLines lines ++ String.ofList line ++ "\n" := by
  apply String.toList_inj.1
  simp [Session.joinLines]

theorem joinLines_eq_empty_iff {lines : List (List Char)} :
    Session.joinLines lines = "" ↔ lines = [] := by
  rw [← String.toList_inj, Session.joinLines, String.toList_ofList]
  cases lines with
  | nil => simp
  | cons line lines => simp

/-- The source that a group of lines makes up: what a file that holds them gives, without its last
line break. -/
def groupSource (group : List String) : String :=
  String.ofList ((Session.joinLines (Session.fileLines (fileText group)).1).toList.dropLast)

/-! ### Transcripts -/

namespace Shell

/-- Blank lines and bare commands, which are no input unless they continue one. -/
def Passed (line : String) : Prop :=
  Text.stripped line ∈ ["", "exit", "help", "?", "EOF"]

instance (line : String) : Decidable (Passed line) :=
  inferInstanceAs (Decidable (_ ∈ _))

theorem command?_eq_none_iff {line : String} : command? line = none ↔ ¬ Passed line := by
  rw [command?, Passed, endOfInput]
  generalize Text.stripped line = word
  by_cases hblank : word = ""
  · simp [hblank]
  by_cases hhelp : word = "help" ∨ word = "?"
  · rcases hhelp with rfl | rfl <;> simp
  by_cases hexit : word = "exit"
  · simp [hexit]
  by_cases hend : word = "EOF"
  · simp [hend]
  · rw [not_or] at hhelp
    simp [hblank, hhelp.1, hhelp.2, hexit, hend]

/-- The groups of lines that are finished, and the lines of one that is not. -/
structure Transcript where
  closed : List (List String)
  unfinished : List String

namespace Transcript

def start : Transcript :=
  { closed := [], unfinished := [] }

def take (transcript : Transcript) (line : String) : Transcript :=
  if transcript.unfinished = [] ∧ Passed line then transcript
  else if (prepare line.toList (transcript.unfinished ≠ [])).2 then
    { transcript with unfinished := transcript.unfinished ++ [line] }
  else
    { closed := transcript.closed ++ [transcript.unfinished ++ [line]], unfinished := [] }

def kept (transcript : Transcript) : List String :=
  transcript.closed.flatten ++ transcript.unfinished

/-- The sources of groups, with the numbers of their first lines after `before` others. -/
def numbered (before : Nat) : List (List String) → List (String × Nat)
  | [] => []
  | group :: groups => (groupSource group, before + 1) :: numbered (before + group.length) groups

def sources (transcript : Transcript) : List (String × Nat) :=
  numbered 0 transcript.closed

theorem numbered_append (before : Nat) (groups : List (List String)) (group : List String) :
    numbered before (groups ++ [group]) =
      numbered before groups ++ [(groupSource group, before + groups.flatten.length + 1)] := by
  induction groups generalizing before with
  | nil => rfl
  | cons first groups ih =>
    have hlength : before + (first :: groups).flatten.length =
        before + first.length + groups.flatten.length := by
      rw [List.flatten_cons, List.length_append, Nat.add_assoc]
    rw [List.cons_append, numbered, numbered, ih, List.cons_append, hlength]

/-- The source that a group of lines makes up: the lines, prepared and joined. -/
def joinGroup (group : List String) : String :=
  String.ofList
    ((Session.joinLines (prepareAll false (group.map String.toList)).1).toList.dropLast)

theorem groupSource_eq_joinGroup {group : List String} (h : ∀ line ∈ group, OneLine line) :
    groupSource group = joinGroup group := by
  rw [groupSource, joinGroup, fileLines_fileText h]

/-- What waits in a shell are the lines of a transcript that are not finished. -/
structure Holds (transcript : Transcript) (shell : Shell) : Prop where
  asks : (prepareAll false (transcript.unfinished.map String.toList)).2 =
    decide (transcript.unfinished ≠ [])
  pending_eq : shell.pending =
    Session.joinLines (prepareAll false (transcript.unfinished.map String.toList)).1

theorem Holds.pending_eq_empty_iff {transcript : Transcript} {shell : Shell}
    (h : transcript.Holds shell) : shell.pending = "" ↔ transcript.unfinished = [] := by
  rw [h.pending_eq, joinLines_eq_empty_iff, ← List.length_eq_zero_iff, length_prepareAll,
    List.length_map, List.length_eq_zero_iff]

theorem Holds.prepareAll_eq {transcript : Transcript} {shell : Shell} (h : transcript.Holds shell)
    (line : String) :
    prepareAll false ((transcript.unfinished ++ [line]).map String.toList) =
      let prepared := prepare line.toList (transcript.unfinished ≠ [])
      ((prepareAll false (transcript.unfinished.map String.toList)).1 ++ [prepared.1],
        prepared.2) := by
  rw [List.map_append, List.map_singleton, prepareAll_append]
  simp only [h.asks]

/-- A line that is input joins what waits, and if it asks for no other, the group that it closes is
the source. -/
theorem Holds.note {transcript : Transcript} {shell : Shell} (h : transcript.Holds shell)
    {line : String} (hinput : ¬ (transcript.unfinished = [] ∧ Passed line)) :
    (transcript.take line).Holds (shell.note line).1 ∧
      (shell.note line).2 =
        if (prepare line.toList (transcript.unfinished ≠ [])).2 then none
        else some (joinGroup (transcript.unfinished ++ [line])) := by
  have hprepared := h.prepareAll_eq line
  have hcontinuing : decide (shell.pending ≠ "") = decide (transcript.unfinished ≠ []) := by
    simp [h.pending_eq_empty_iff]
  rw [take, if_neg hinput, Shell.note]
  dsimp only at hprepared ⊢
  rw [hcontinuing]
  by_cases hcontinued : (prepare line.toList (transcript.unfinished ≠ [])).2 = true
  · rw [if_pos hcontinued, if_pos hcontinued, if_pos hcontinued]
    refine ⟨⟨?_, ?_⟩, rfl⟩
    · rw [hprepared, hcontinued]
      simp
    · rw [hprepared, joinLines_append, h.pending_eq]
  · rw [if_neg hcontinued, if_neg hcontinued, if_neg hcontinued]
    refine ⟨⟨rfl, rfl⟩, congrArg some ?_⟩
    rw [joinGroup, hprepared, joinLines_append, h.pending_eq]
    apply String.toList_inj.1
    simp

/-- A shell has noted what a transcript holds. -/
structure Noted (transcript : Transcript) (shell : Shell) : Prop where
  oneLine : ∀ line ∈ transcript.unfinished, OneLine line
  asks : (prepareAll false (transcript.unfinished.map String.toList)).2 =
    decide (transcript.unfinished ≠ [])
  pending_eq : shell.pending =
    Session.joinLines (prepareAll false (transcript.unfinished.map String.toList)).1
  prompt_eq : shell.prompt =
    if transcript.unfinished = [] then inputPrompt else continuationPrompt
  firstLine_eq : transcript.unfinished ≠ [] →
    shell.firstLine = transcript.closed.flatten.length + 1
  lineCount_eq : shell.lineCount = transcript.kept.length

variable {transcript : Transcript} {shell : Shell}

theorem noted_start (session : Session) : start.Noted (Shell.new session) := by
  refine ⟨by simp [start], rfl, rfl, rfl, ?_, rfl⟩
  intro h
  exact absurd rfl h

theorem Noted.holds (h : transcript.Noted shell) : transcript.Holds shell :=
  ⟨h.asks, h.pending_eq⟩

theorem Noted.pending_eq_empty_iff (h : transcript.Noted shell) :
    shell.pending = "" ↔ transcript.unfinished = [] :=
  h.holds.pending_eq_empty_iff

/-- The session is no matter of the transcript. -/
theorem Noted.with_session (h : transcript.Noted shell) (session : Session) :
    transcript.Noted { shell with session } :=
  ⟨h.oneLine, h.asks, h.pending_eq, h.prompt_eq, h.firstLine_eq, h.lineCount_eq⟩

/-- What noting a line does, in terms of the transcript. -/
theorem Noted.note_eq (h : transcript.Noted shell) (line : String) :
    shell.note line =
      let prepared := prepare line.toList (transcript.unfinished ≠ [])
      let source := shell.pending ++ String.ofList prepared.1
      let firstLine := transcript.closed.flatten.length + 1
      let lineCount := transcript.kept.length + 1
      if prepared.2 then
        ({ shell with
            pending := source ++ "\n", prompt := continuationPrompt, firstLine, lineCount }, none)
      else
        ({ shell with pending := "", prompt := inputPrompt, firstLine, lineCount },
          some source) := by
  by_cases hopen : transcript.unfinished = []
  · have hpending := h.pending_eq_empty_iff.2 hopen
    simp [Shell.note, hpending, hopen, h.lineCount_eq, kept]
  · have hpending : ¬ shell.pending = "" := fun hempty => hopen (h.pending_eq_empty_iff.1 hempty)
    simp [Shell.note, hpending, hopen, h.lineCount_eq, h.firstLine_eq hopen]

/-- Noting a line that is input takes what belongs to a transcript to what belongs to the one after
the line, and completes the source of the group that the line closes. -/
theorem Noted.note (h : transcript.Noted shell) {line : String} (hline : OneLine line)
    (hinput : ¬ (transcript.unfinished = [] ∧ Passed line)) :
    (transcript.take line).Noted (shell.note line).1 ∧
      (transcript.take line).sources = transcript.sources ++
        ((shell.note line).2.map (·, (shell.note line).1.firstLine)).toList := by
  obtain ⟨hholds, hsource⟩ := h.holds.note hinput
  have hlines : ∀ other ∈ transcript.unfinished ++ [line], OneLine other :=
    List.forall_mem_append.2 ⟨h.oneLine, List.forall_mem_singleton.2 hline⟩
  have hgroup := groupSource_eq_joinGroup hlines
  have hnote := congrArg Prod.fst (h.note_eq line)
  rw [hsource]
  rw [take, if_neg hinput] at hholds ⊢
  dsimp only at hnote
  -- Either the line joins the group that is not finished, or it closes it.
  by_cases hcontinued : (prepare line.toList (transcript.unfinished ≠ [])).2 = true
  · rw [if_pos hcontinued] at hholds hnote ⊢
    rw [if_pos hcontinued]
    refine ⟨⟨hlines, hholds.asks, hholds.pending_eq, ?_, ?_, ?_⟩, ?_⟩
    · simp [hnote]
    · simp [hnote]
    · simp [hnote, kept, Nat.add_assoc]
    · simp [sources]
  · rw [if_neg hcontinued] at hholds hnote ⊢
    rw [if_neg hcontinued]
    refine ⟨⟨by simp, hholds.asks, hholds.pending_eq, ?_, ?_, ?_⟩, ?_⟩
    · simp [hnote]
    · simp
    · simp [hnote, kept, Nat.add_assoc]
    · simp [hnote, sources, numbered_append, hgroup]

end Transcript
end Shell
end LetLang
