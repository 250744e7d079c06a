import LetLang.Proofs.Shells.Answers
import LetLang.Proofs.Shells.Transcripts
import LetLang.Runner
/-!
# Shells and their history

The state of a shell is computed from the lines that it was given: from the transcript of its input
what it knows of the input and which sources it has added to its session, and from the sources what
the session has to show for them.
-/
namespace LetLang

namespace Shell

/-- The source that a line completes, with the number of its first line. -/
def added (shell : Shell) (line : String) : Option (String × Nat) :=
  match shell.heeded? line with
  | some _ => none
  | none => (shell.note line).2.map (·, (shell.note line).1.firstLine)

variable {colours : Bool} {limits : Limits} {shell : Shell} {line : String}

/-! ### Answering one line -/

/-- How a line can be answered: as a command, as input that asks for another line, or as input that
completes a source. -/
inductive Answered (colours : Bool) (limits : Limits) (shell : Shell) (line : String) : Prop
  | command {command : Command} (heeded : shell.heeded? line = some command)
      (added : shell.added line = none)
      (answer : shell.answer colours limits line = shell.obey command)
  | continued (heeded : shell.heeded? line = none) (added : shell.added line = none)
      (note : (shell.note line).2 = none)
      (answer : shell.answer colours limits line =
        { shell := (shell.note line).1, printed := "", outcome := .continues })
  | completed {source : String} (heeded : shell.heeded? line = none)
      (added : shell.added line = some (source, (shell.note line).1.firstLine))
      (note : (shell.note line).2 = some source)
      (answer : shell.answer colours limits line =
        (shell.note line).1.runInput colours limits source)

theorem answered (colours : Bool) (limits : Limits) (shell : Shell) (line : String) :
    shell.Answered colours limits line := by
  cases hheeded : shell.heeded? line with
  | some command =>
    have hadded : shell.added line = none := by rw [added, hheeded]
    apply Answered.command hheeded hadded
    rw [answer, hheeded]
  | none =>
    have hadded : shell.added line =
        (shell.note line).2.map (·, (shell.note line).1.firstLine) := by rw [added, hheeded]
    have hanswer : shell.answer colours limits line = shell.input colours limits line := by
      rw [answer, hheeded]
    rw [input] at hanswer
    rcases hnote : shell.note line with ⟨noted, _ | source⟩
    · rw [hnote] at hadded hanswer
      apply Answered.continued hheeded hadded <;> rw [hnote]
      rw [hanswer]
    · rw [hnote] at hadded hanswer
      apply Answered.completed hheeded <;> rw [hnote]
      · exact hadded
      · exact hanswer

/-- A command leaves the shell as it is. -/
@[simp] theorem shell_obey (shell : Shell) (command : Command) :
    (shell.obey command).shell = shell := by
  cases command <;> rfl

theorem note_session (shell : Shell) (line : String) :
    (shell.note line).1.session = shell.session := by
  rw [note]
  dsimp only
  split <;> rfl

/-- Of the shell that runs a source, its session and the number of the first line count. -/
theorem runInput_session {other : Shell} (hsession : other.session = shell.session)
    (hfirstLine : other.firstLine = shell.firstLine) (source : String) :
    (other.runInput colours limits source).shell.session =
      (shell.runInput colours limits source).shell.session := by
  unfold runInput
  rw [hsession, hfirstLine]
  dsimp only
  split <;> rfl

/-- An answer adds the source that the line completes to the session, and runs it. -/
theorem answer_session (colours : Bool) (limits : Limits) (shell : Shell) (line : String) :
    (shell.answer colours limits line).shell.session =
      match shell.added line with
      | none => shell.session
      | some (source, number) =>
        ({ shell with firstLine := number }.runInput colours limits source).shell.session := by
  cases shell.answered colours limits line with
  | command _ hadded hanswer => rw [hadded, hanswer, shell_obey]
  | continued _ hadded _ hanswer => rw [hadded, hanswer, note_session]
  | completed _ hadded _ hanswer =>
    rw [hadded, hanswer]
    apply runInput_session
    · exact shell.note_session line
    · rfl

end Shell

def Books.enterAll (limits : Limits) (root : ScopeId) (books : Books)
    (sources : List (String × Nat)) : Books :=
  sources.foldl (fun books source => books.enter limits root source.1) books

theorem Books.enterAll_append (limits : Limits) (root : ScopeId) (books : Books)
    (sources others : List (String × Nat)) :
    books.enterAll limits root (sources ++ others) =
      (books.enterAll limits root sources).enterAll limits root others :=
  List.foldl_append

/-- The store is that of interpreting the sources, those that are blank left out. -/
theorem Books.store_enterAll (limits : Limits) (root : ScopeId) (books : Books)
    (sources : List (String × Nat)) :
    (books.enterAll limits root sources).store =
      (sources.filter fun source => ! Text.allBlank source.1).foldl
        (fun store source => (outcome (Program.interpret limits source.1 root) store).2)
        books.store := by
  induction sources generalizing books with
  | nil => rfl
  | cons source sources ih =>
    have hrest := ih (books.enter limits root source.1)
    rw [enterAll, List.foldl_cons, ← enterAll, hrest, enter]
    by_cases hblank : Text.allBlank source.1 = true
    · simp [hblank]
    · simp [hblank, Program.outcome_interpret]

namespace Shell

variable {colours : Bool} {limits : Limits} {initial : Session} {transcript : Transcript}
  {shell : Shell} {line : String}

/-- An answer enters the source that the line completes into the books of the session, and changes
nothing else in it. No result waits after it, unless it has failed. -/
theorem answer_keeping (colours : Bool) (hidle : initial.Idle) (hqueue : initial.queue = [])
    {books : Books} (h : shell.session = initial.keeping books) (line : String) :
    let reply := shell.answer colours limits line
    let entered := books.enterAll limits initial.root (shell.added line).toList
    reply.shell.session = initial.keeping entered ∧
      (books.results = [] → (∀ fault, reply.outcome ≠ .fails fault) → entered.results = []) := by
  dsimp only
  cases shell.answered colours limits line with
  | command _ hadded hanswer =>
    rw [hanswer, hadded, shell_obey]
    exact ⟨h, fun hresults _ => hresults⟩
  | continued _ hadded _ hanswer =>
    rw [hanswer, hadded, note_session]
    exact ⟨h, fun hresults _ => hresults⟩
  | @completed source _ hadded _ hanswer =>
    have hsession := (shell.note_session line).trans h
    -- The session is still the initial one with other books, so that it is idle before the run.
    have hidle' : (shell.note line).1.session.Idle := by
      rw [hsession]
      exact hidle
    have hqueue' : (shell.note line).1.session.queue = [] := by
      rw [hsession]
      exact hqueue
    obtain ⟨hshell, hresults⟩ := runInput_eq colours limits hidle' hqueue' source
    rw [hsession] at hshell hresults
    rw [hanswer, hadded, hshell]
    exact ⟨rfl, fun _ => hresults⟩

/-- Of the shell, an answer changes what noting the line does, and the session. -/
theorem answer_shell (colours : Bool) (limits : Limits) (shell : Shell) (line : String) :
    ∃ session, (shell.answer colours limits line).shell =
      { (if shell.heeded? line = none then (shell.note line).1 else shell) with session } := by
  cases shell.answered colours limits line with
  | command hheeded _ hanswer =>
    rw [hanswer, shell_obey, if_neg (by simp [hheeded])]
    exact ⟨shell.session, rfl⟩
  | continued hheeded _ _ hanswer =>
    rw [hanswer, if_pos hheeded]
    exact ⟨(shell.note line).1.session, rfl⟩
  | @completed source hheeded _ _ hanswer =>
    rw [hanswer, if_pos hheeded, runInput]
    dsimp only
    split <;> exact ⟨_, rfl⟩

theorem added_of_heeded?_eq_none (h : shell.heeded? line = none) :
    shell.added line = (shell.note line).2.map (·, (shell.note line).1.firstLine) := by
  rw [added, h]

theorem added_of_heeded?_ne_none (h : shell.heeded? line ≠ none) : shell.added line = none := by
  obtain ⟨command, hcommand⟩ := Option.ne_none_iff_exists'.1 h
  rw [added, hcommand]

/-- The lines that a transcript passes over are the commands that the shell heeds. -/
theorem Transcript.Holds.heeded?_eq_none_iff (h : transcript.Holds shell) :
    shell.heeded? line = none ↔ ¬ (transcript.unfinished = [] ∧ Passed line) := by
  rw [← h.pending_eq_empty_iff, heeded?]
  by_cases hpending : shell.pending = ""
  · rw [if_pos hpending, command?_eq_none_iff, and_iff_right hpending]
  · simp [hpending]

/-- The shell that has answered a line has noted the transcript after it, and the source that the
line adds is the one that is new in the transcript. -/
theorem Transcript.Noted.answer (h : transcript.Noted shell) (colours : Bool) (limits : Limits)
    (hline : OneLine line) :
    (transcript.take line).Noted (shell.answer colours limits line).shell ∧
      (transcript.take line).sources = transcript.sources ++ (shell.added line).toList := by
  obtain ⟨session, hshell⟩ := answer_shell colours limits shell line
  rw [hshell]
  by_cases hheeded : shell.heeded? line = none
  · obtain ⟨hnoted, hsources⟩ := h.note hline (h.holds.heeded?_eq_none_iff.1 hheeded)
    rw [if_pos hheeded, added_of_heeded?_eq_none hheeded]
    exact ⟨hnoted.with_session session, hsources⟩
  · have hpassed := not_not.1 (mt h.holds.heeded?_eq_none_iff.2 hheeded)
    rw [if_neg hheeded, added_of_heeded?_ne_none hheeded, take, if_pos hpassed]
    exact ⟨h.with_session session, (List.append_nil _).symm⟩

/-! ### Answering many lines -/

/-- The shell after some lines, whatever the outcomes of its replies. -/
def afterAll (colours : Bool) (limits : Limits) (shell : Shell) (lines : List String) : Shell :=
  lines.foldl (fun shell line => (shell.answer colours limits line).shell) shell

/-- The sources that lines add, each of them being answered by the shell that those before it have
left. -/
def addedAll (colours : Bool) (limits : Limits) : Shell → List String → List (String × Nat)
  | _, [] => []
  | shell, line :: lines =>
    let reply := shell.answer colours limits line
    (shell.added line).toList ++ addedAll colours limits reply.shell lines

def replies (colours : Bool) (limits : Limits) : Shell → List String → List Reply
  | _, [] => []
  | shell, line :: lines =>
    let reply := shell.answer colours limits line
    reply :: replies colours limits reply.shell lines

theorem replies_append (colours : Bool) (limits : Limits) (shell : Shell) (lines : List String)
    (line : String) :
    shell.replies colours limits (lines ++ [line]) =
      shell.replies colours limits lines ++
        [(shell.afterAll colours limits lines).answer colours limits line] := by
  induction lines generalizing shell with
  | nil => rfl
  | cons first lines ih =>
    rw [List.cons_append, replies, ih]
    rfl

/-- Answers enter the sources that the lines complete into the books of the session. No result waits
after them, unless one of them has failed. -/
theorem afterAll_keeping (colours : Bool) (hidle : initial.Idle) (hqueue : initial.queue = [])
    {books : Books} (h : shell.session = initial.keeping books) (lines : List String) :
    let entered := books.enterAll limits initial.root (shell.addedAll colours limits lines)
    (shell.afterAll colours limits lines).session = initial.keeping entered ∧
      (books.results = [] →
        (∀ reply ∈ shell.replies colours limits lines, ∀ fault, reply.outcome ≠ .fails fault) →
          entered.results = []) := by
  induction lines generalizing shell books with
  | nil => exact ⟨h, fun hresults _ => hresults⟩
  | cons line lines ih =>
    obtain ⟨hsession, hresults⟩ := answer_keeping colours hidle hqueue h line
    obtain ⟨hrest, hresultsRest⟩ := ih hsession
    rw [← Books.enterAll_append] at hrest hresultsRest
    refine ⟨hrest, ?_⟩
    intro hnone hfails
    rw [replies, List.forall_mem_cons] at hfails
    exact hresultsRest (hresults hnone hfails.1) hfails.2

/-- The session of a shell after any lines: the first one with other books, ready for another
source. -/
theorem session_afterAll (colours : Bool) (limits : Limits) (showTree : Bool)
    (lines : List String) :
    let first := Runner.newShell showTree
    let session := (first.afterAll colours limits lines).session
    let books := first.session.books.enterAll limits first.session.root
      (first.addedAll colours limits lines)
    session = first.session.keeping books ∧ session.Idle ∧ session.queue = [] ∧
      session.showTree = showTree ∧
      ((∀ reply ∈ first.replies colours limits lines, ∀ fault, reply.outcome ≠ .fails fault) →
        session.results = []) := by
  intro first session books
  have hidle : first.session.Idle := rfl
  have hbooks : first.session = first.session.keeping first.session.books := rfl
  obtain ⟨hsession, hresults⟩ :
      session = first.session.keeping books ∧ _ := afterAll_keeping colours hidle rfl hbooks lines
  rw [hsession]
  exact ⟨rfl, hidle, rfl, rfl, hresults rfl⟩

theorem Transcript.Noted.afterAll (h : transcript.Noted shell) (colours : Bool) (limits : Limits)
    {lines : List String} (hlines : ∀ line ∈ lines, OneLine line) :
    (lines.foldl take transcript).Noted (shell.afterAll colours limits lines) ∧
      (lines.foldl take transcript).sources =
        transcript.sources ++ shell.addedAll colours limits lines := by
  induction lines generalizing transcript shell with
  | nil => exact ⟨h, (List.append_nil _).symm⟩
  | cons line lines ih =>
    rw [List.forall_mem_cons] at hlines
    obtain ⟨hreply, hadded⟩ := h.answer colours limits hlines.1
    obtain ⟨hrest, haddedRest⟩ := ih hreply hlines.2
    refine ⟨hrest, ?_⟩
    rw [List.foldl_cons, haddedRest, hadded, List.append_assoc]
    rfl

/-- A shell is where a transcript leads from the initial session. -/
structure Transcript.Reaches (limits : Limits) (initial : Session) (transcript : Transcript)
    (shell : Shell) : Prop where
  noted : transcript.Noted shell
  session_eq : shell.session =
    initial.keeping (initial.books.enterAll limits initial.root transcript.sources)

theorem Transcript.Reaches.afterAll (colours : Bool) (hidle : initial.Idle)
    (hqueue : initial.queue = []) {lines : List String}
    (h : transcript.Reaches limits initial shell) (hlines : ∀ line ∈ lines, OneLine line) :
    (lines.foldl take transcript).Reaches limits initial (shell.afterAll colours limits lines) ∧
      (lines.foldl take transcript).sources =
        transcript.sources ++ shell.addedAll colours limits lines ∧
      (shell.session.results = [] →
        (∀ reply ∈ shell.replies colours limits lines, ∀ fault, reply.outcome ≠ .fails fault) →
          (shell.afterAll colours limits lines).session.results = []) := by
  obtain ⟨hnoted, hsources⟩ := h.noted.afterAll colours limits hlines
  obtain ⟨hsession, hresults⟩ := afterAll_keeping colours hidle hqueue h.session_eq lines
  rw [← Books.enterAll_append, ← hsources] at hsession hresults
  refine ⟨⟨hnoted, hsession⟩, hsources, ?_⟩
  rw [hsession, h.session_eq]
  exact hresults

theorem Transcript.Noted.pending_ne_empty_iff (h : transcript.Noted shell) :
    shell.pending ≠ "" ↔ shell.prompt = continuationPrompt := by
  rw [ne_eq, h.pending_eq_empty_iff, h.prompt_eq]
  by_cases hopen : transcript.unfinished = []
  · simp [hopen, inputPrompt, continuationPrompt]
  · simp [hopen]

end Shell

/-- What a shell holds is determined by the lines that it was given. An answer adds the source that
its line completes to the session and runs it; the sources that were added are those of the groups
that are closed, as a file would have them, each with the number of its first line among the lines
that were kept. What waits is the group that is not closed, and the shell asks for another line
where there is one. The session has the store of interpreting the sources one after the other, and
those results that a failure has left unprinted; its queue is empty, and its reporter knows no
line. -/
theorem shells_keep_their_history (colours : Bool) (limits : Limits) (showTree : Bool)
    {lines : List String} (hlines : ∀ line ∈ lines, OneLine line) :
    let first := Runner.newShell showTree
    let shell := first.afterAll colours limits lines
    let transcript := lines.foldl Shell.Transcript.take .start
    let root := first.session.root
    (∀ (shell : Shell) (line : String),
      (shell.answer colours limits line).shell.session =
        match shell.added line with
        | none => shell.session
        | some (source, number) =>
          ({ shell with firstLine := number }.runInput colours limits source).shell.session) ∧
      first.addedAll colours limits lines = transcript.sources ∧
      shell.pending = Session.joinLines
        (Continuation.prepareAll false (transcript.unfinished.map String.toList)).1 ∧
      (shell.pending ≠ "" ↔ shell.prompt = Shell.continuationPrompt) ∧
      shell.lineCount = transcript.kept.length ∧
      shell.session =
        { first.session with
          store :=
            (transcript.sources.filter fun source => ! Text.allBlank source.1).foldl
              (fun store source => (outcome (Program.interpret limits source.1 root) store).2)
              first.session.store
          results := (first.session.books.enterAll limits root transcript.sources).results } ∧
      ((∀ reply ∈ first.replies colours limits lines, ∀ fault, reply.outcome ≠ .fails fault) →
        shell.session.results = []) := by
  intro first shell transcript root
  have hstart : Shell.Transcript.start.Reaches limits first.session first :=
    ⟨Shell.Transcript.noted_start _, rfl⟩
  have hidle : first.session.Idle := rfl
  obtain ⟨hreaches, hadded, hresults⟩ := hstart.afterAll colours hidle rfl hlines
  have hsession := hreaches.session_eq
  rw [Session.keeping, Books.store_enterAll] at hsession
  exact ⟨Shell.answer_session colours limits, hadded.symm, hreaches.noted.pending_eq,
    hreaches.noted.pending_ne_empty_iff, hreaches.noted.lineCount_eq, hsession, hresults rfl⟩

theorem shells_keep_their_history_continued :
    let lines := ["exit", "let x = \\", "  1 // one", "", "x / 0", "help \\", " exit", "x \\"]
    let shell := (Runner.newShell false).afterAll false ⟨99, 99⟩ lines
    (∀ line ∈ lines, OneLine line) ∧
      (Runner.newShell false).addedAll false ⟨99, 99⟩ lines =
        [("let x = \n 1 // one", 1), ("x / 0", 3), ("help \n exit", 4)] ∧
      shell.pending = "x \n" ∧ shell.lineCount = 6 ∧
      shell.session.queue = [] ∧ shell.session.results = [] := by
  intro lines shell
  have hlines : ∀ line ∈ lines, OneLine line := by decide +kernel
  obtain ⟨-, hadded, hpending, -, hcount, hsession, -⟩ :=
    shells_keep_their_history false ⟨99, 99⟩ false hlines
  refine ⟨hlines, ?_, ?_, ?_, ?_, ?_⟩
  · rw [hadded]
    decide +kernel
  · rw [hpending]
    decide +kernel
  · rw [hcount]
    decide +kernel
  · rw [hsession]
    rfl
  · rw [hsession]
    decide +kernel

end LetLang
