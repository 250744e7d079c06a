import LetLang.Proofs.Causes
import LetLang.Proofs.Shells.Replies
/-!
# Failures are contained

Whatever was run before, a text gives values or fails for a reason of its own, and what is said of
the failure can be put into words. Of the faults of a source, only those of numbers with too many
digits leave a shell; a result with too many digits does so too. Every other fault is reported and
goes no further.
-/
namespace LetLang

/-! ### Proper faults -/

/-- The fault is no failure of the program itself: none that only a stream without an end or a tree
with something else than expressions in it could meet, and none whose report cannot be made. -/
structure Fault.Proper (fault : Fault) : Prop where
  ne_exhausted : fault ≠ .exhausted
  ne_notAnExpression : ∀ datum, fault ≠ .language (.notAnExpression datum)
  fillable : fault.notice.Fillable
  character : ∀ source pos c, fault = .language (.unexpectedCharacter source pos c) →
    Notice.ofCharacter? source pos = some (c, fault.notice)

/-- The notice about a character can be made where the character is. -/
theorem Notice.ofCharacter?_eq {source : String} {pos : Nat} {c : Char}
    (h : source.toList[pos]? = some c) :
    ofCharacter? source pos =
      some (c, (Fault.language (.unexpectedCharacter source pos c)).notice) := by
  have hindex : ¬ (pos : Int) < 0 := by omega
  have hstop : ¬ (pos : Int) + 1 = -1 := by omega
  rw [ofCharacter?, if_neg hindex, if_neg hindex, Int.toNat_natCast, h, Option.map_some,
    Numeral.text_natCast, stopIn, if_neg hstop]
  rfl

/-- The errors of evaluation are about names and values. -/
theorem Complaint.Legible.error_ne {complaint : Complaint} (h : complaint.Legible)
    {error : LanguageError} (herror : complaint.error? = some error) :
    (∀ datum, error ≠ .notAnExpression datum) ∧
      ∀ source pos c, error ≠ .unexpectedCharacter source pos c := by
  cases complaint with
  | datum found => exact absurd rfl (h.not_datum found)
  | operands op left right =>
    obtain ⟨a, -, b, -, rfl⟩ : ∃ a, left.describe? = some a ∧ ∃ b, right.describe? = some b ∧
        LanguageError.binaryMismatch op a b = error := by
      simpa [error?, Option.bind_eq_some_iff] using herror
    simp
  | unbound name =>
    cases herror
    simp
  | operand | condition | callee | dividend =>
    rw [error?, Option.map_eq_some_iff] at herror
    obtain ⟨text, -, rfl⟩ := herror
    simp

theorem Program.Stops.proper {limits : Limits} {root : ScopeId} {text : String} {store : Store}
    {fault : Fault} (h : Stops limits root text store fault) : fault.Proper := by
  refine ⟨?_, ?_, fault.fillable_notice, ?_⟩
  · cases h <;> simp
  · intro datum
    cases h with
    | complaint _ _ hlegible herror => simpa using (hlegible.error_ne herror).1 datum
    | character | token | nesting | numeral | number => simp
  · intro source pos c hfault
    cases h with
    | character _ h =>
      cases hfault
      exact Notice.ofCharacter?_eq h
    | complaint _ _ hlegible herror =>
      cases hfault
      exact absurd rfl ((hlegible.error_ne herror).2 source pos c)
    | token | nesting | numeral | number => cases hfault

/-- The fault is that of a number with too many digits to be read or written. -/
def Fault.OfDigits (fault : Fault) : Prop :=
  fault = .numberTooLong ∨ ∃ digits, fault = .numeralTooLong digits

/-- Of the proper faults, those of numbers with too many digits escape. -/
theorem Fault.Proper.escapes_iff {fault : Fault} (h : fault.Proper) :
    fault.escapes = true ↔ fault.OfDigits := by
  cases fault with
  | exhausted => exact absurd rfl h.ne_exhausted
  | language | recursionLimit | numeralTooLong | numberTooLong => simp [escapes, OfDigits]

/-! ### Legible books -/

structure Books.Legible (books : Books) : Prop where
  store : books.store.Legible
  results : ∀ value ∈ books.results, value.Legible

theorem Program.legible_inputCourse (limits : Limits) (root : ScopeId) (source : String)
    {store : Store} (h : store.Legible) :
    (inputCourse limits root source store).store.Legible ∧
      ∀ value ∈ (inputCourse limits root source store).values, value.Legible := by
  rw [inputCourse]
  split
  · exact ⟨h, by simp⟩
  · exact legible_course limits root source h

theorem Session.mem_of_mem_unprinted {values : List Value} {value : Value}
    (h : value ∈ unprinted values) : value ∈ values := by
  induction values with
  | nil => exact h
  | cons first values ih =>
    rw [unprinted] at h
    split at h
    · exact List.mem_cons_of_mem first h
    · exact List.mem_cons_of_mem first (ih h)

theorem Books.Legible.enter {books : Books} (h : books.Legible) (limits : Limits)
    (root : ScopeId) (source : String) : (books.enter limits root source).Legible := by
  obtain ⟨hstore, hvalues⟩ := Program.legible_inputCourse limits root source h.store
  have hall := List.forall_mem_append.2 ⟨h.results, hvalues⟩
  refine ⟨hstore, ?_⟩
  intro value hmem
  cases hescapes : (Program.inputCourse limits root source books.store).fault.any Fault.escapes with
  | true =>
    have hresults : (books.enter limits root source).results = _ := if_pos hescapes
    rw [hresults] at hmem
    exact hall value hmem
  | false =>
    have hresults : (books.enter limits root source).results = _ :=
      if_neg (Bool.eq_false_iff.1 hescapes)
    rw [hresults] at hmem
    exact hall value (Session.mem_of_mem_unprinted hmem)

theorem Books.Legible.enterAll {books : Books} (h : books.Legible) (limits : Limits)
    (root : ScopeId) (sources : List (String × Nat)) :
    (books.enterAll limits root sources).Legible := by
  induction sources generalizing books with
  | nil => exact h
  | cons source sources ih => exact ih (h.enter limits root source.1)

/-! ### Texts one after the other -/

namespace Program

/-- The store that texts leave which are run one after the other, whether they fail or not. -/
def storeAfter (limits : Limits) (root : ScopeId) (texts : List String) (store : Store) : Store :=
  texts.foldl (fun store text => (outcome (interpret limits text root) store).2) store

theorem legible_storeAfter (limits : Limits) (root : ScopeId) (texts : List String) {store : Store}
    (h : store.Legible) : (storeAfter limits root texts store).Legible := by
  induction texts generalizing store with
  | nil => exact h
  | cons text texts ih =>
    have hafter := (legible_course limits root text h).1
    have hnext : Store.Legible (outcome (interpret limits text root) store).2 := by
      rw [outcome_interpret]
      exact hafter
    exact ih hnext

/-- Interpreting a text in a legible store gives values, or fails for a cause. -/
theorem stops_of_interpret {limits : Limits} {root : ScopeId} {text : String} {store : Store}
    (hstore : store.Legible) {fault : Fault}
    (h : (outcome (interpret limits text root) store).1 = .error fault) :
    Stops limits root text store fault :=
  stops_of_course hstore (course_fault_of_interpret h)

theorem stops_of_inputCourse {limits : Limits} {root : ScopeId} {source : String} {store : Store}
    (hstore : store.Legible) {fault : Fault}
    (h : (inputCourse limits root source store).fault = some fault) :
    Stops limits root source store fault := by
  rw [inputCourse] at h
  split at h
  · cases h
  · exact stops_of_course hstore h

end Program

/-! ### Shells -/

/-- Printing legible values fails only at a number with too many digits. -/
theorem Session.resultsFault_eq_some {values : List Value} (h : ∀ value ∈ values, value.Legible)
    {fault : Fault} (hfault : resultsFault values = some fault) :
    fault = .numberTooLong ∧ ∃ n, .int n ∈ values ∧ Numeral.TooLong n := by
  rw [resultsFault] at hfault
  split at hfault
  · cases hfault
  · next hnot =>
    obtain ⟨value, hmem, hnone⟩ : ∃ value ∈ values, value.text? = none := by
      simpa using hnot
    obtain ⟨n, rfl, hlong⟩ := (h value hmem).text?_eq_none_iff.1 hnone
    exact ⟨(Option.some.inj hfault).symm, n, hmem, hlong⟩

/-- What leaves the shell is the fault of a course if it is about a number with too many digits, and
otherwise at most the fault of printing a result that is one. -/
theorem Course.leaving_cases {course : Course} {results : List Value}
    (hproper : ∀ fault, course.fault = some fault → fault.Proper)
    (hresults : ∀ value ∈ results, value.Legible) :
    (∀ fault, course.fault = some fault → fault.OfDigits → course.leaving results = some fault) ∧
      ((∀ fault, course.fault = some fault → ¬ fault.OfDigits) →
        ∀ fault, course.leaving results = some fault →
          fault = .numberTooLong ∧ ∃ n, .int n ∈ results ∧ Numeral.TooLong n) := by
  constructor
  · intro fault hfault hdigits
    exact leaving_of_escapes hfault ((hproper fault hfault).escapes_iff.2 hdigits) results
  · intro hother fault hleaving
    have hcontained : course.fault.any Fault.escapes = false := by
      cases hcourse : course.fault with
      | none => rfl
      | some found =>
        have hescapes : ¬ found.escapes = true :=
          mt (hproper found hcourse).escapes_iff.1 (hother found hcourse)
        simpa using hescapes
    rw [leaving_of_contained hcontained] at hleaving
    exact Session.resultsFault_eq_some hresults hleaving

/-- What a shell with legible books makes of the fault of a source. -/
theorem Shell.answer_contained (colours : Bool) (limits : Limits) {shell : Shell}
    {line source : String} {number : Nat} (hidle : shell.session.Idle)
    (hqueue : shell.session.queue = []) (hlegible : shell.session.books.Legible)
    (hadded : shell.added line = some (source, number)) :
    let session := shell.session
    let run := (session.add source number).run limits
    let course := Program.inputCourse limits session.root source session.store
    let results := session.results ++ course.values
    let reply := shell.answer colours limits line
    (∀ fault, course.fault = some fault → fault.Proper ∧
        Program.Stops limits session.root source session.store fault) ∧
      (∃ rest, reply.printed = run.printed ++ run.report colours course.fault ++ rest) ∧
      (∀ fault, course.fault = some fault → fault.OfDigits → reply.outcome = .fails fault) ∧
      ((∀ fault, course.fault = some fault → ¬ fault.OfDigits) →
        reply.outcome = .continues ∨
          reply.outcome = .fails .numberTooLong ∧
            ∃ n, .int n ∈ results ∧ Numeral.TooLong n) := by
  intro session run course results reply
  have hstops : ∀ fault, course.fault = some fault →
      Program.Stops limits session.root source session.store fault :=
    fun _ => Program.stops_of_inputCourse hlegible.store
  have hproper : ∀ fault, course.fault = some fault → fault.Proper :=
    fun fault hfault => (hstops fault hfault).proper
  have hresults : ∀ value ∈ results, value.Legible :=
    List.forall_mem_append.2
      ⟨hlegible.results, (Program.legible_inputCourse limits _ source hlegible.store).2⟩
  obtain ⟨-, hprinted, houtcome⟩ := answer_reply colours limits hidle hqueue hadded
  have hreply : reply.outcome = .after (course.leaving results) := houtcome
  obtain ⟨hdigits, hother⟩ := Course.leaving_cases hproper hresults
  refine ⟨fun fault hfault => ⟨hproper fault hfault, hstops fault hfault⟩, ⟨_, hprinted⟩, ?_, ?_⟩
  · intro fault hfault hlong
    rw [hreply, hdigits fault hfault hlong]
    rfl
  · intro hnone
    cases hleaving : course.leaving results with
    | none =>
      rw [hreply, hleaving]
      exact .inl rfl
    | some fault =>
      obtain ⟨rfl, hlong⟩ := hother hnone fault hleaving
      rw [hreply, hleaving]
      exact .inr ⟨rfl, hlong⟩

/-- Failures are contained. After any texts, some of which may have failed, a text gives values or
stops for a cause of its own, with a fault that can be put into words; only a numeral of more than
4300 digits, or an error about a number of more than 4300 digits, makes it a fault of digits. So it
is with the lines of a shell: a line that completes no source is obeyed or asks for another one, and
a line that does is answered with a report of its fault, if there is one. The shell fails only with a
fault of digits, or because a result has more than 4300 digits, and otherwise goes on. -/
theorem failures_are_contained (colours : Bool) (limits : Limits) :
    (∀ (earlier : List String) (text : String),
      let store := Program.storeAfter limits Program.root earlier Program.start
      let result := (outcome (Program.interpret limits text Program.root) store).1
      (∃ values, result = .ok values) ∨
        ∃ fault, result = .error fault ∧ fault.Proper ∧
          Program.Stops limits Program.root text store fault) ∧
      ∀ (showTree : Bool) (lines : List String) (line : String),
        let shell := (Runner.newShell showTree).afterAll colours limits lines
        let session := shell.session
        let reply := shell.answer colours limits line
        (shell.added line = none → reply.outcome ∈ [.continues, .stops]) ∧
          ∀ source number, shell.added line = some (source, number) →
            let run := (session.add source number).run limits
            let course := Program.inputCourse limits session.root source session.store
            let results := session.results ++ course.values
            (∀ fault, course.fault = some fault → fault.Proper ∧
                Program.Stops limits session.root source session.store fault) ∧
              (∃ rest, reply.printed = run.printed ++ run.report colours course.fault ++ rest) ∧
              (∀ fault, course.fault = some fault → fault.OfDigits →
                reply.outcome = .fails fault) ∧
              ((∀ fault, course.fault = some fault → ¬ fault.OfDigits) →
                reply.outcome = .continues ∨
                  reply.outcome = .fails .numberTooLong ∧
                    ∃ n, .int n ∈ results ∧ 4300 < (Nat.digits 10 n.natAbs).length) := by
  constructor
  · intro earlier text store result
    have hstore : store.Legible :=
      Program.legible_storeAfter limits Program.root earlier Store.legible_start
    cases hresult : result with
    | ok values => exact .inl ⟨values, rfl⟩
    | error fault =>
      have hstops := Program.stops_of_interpret hstore hresult
      exact .inr ⟨fault, rfl, hstops.proper, hstops⟩
  · intro showTree lines line shell session reply
    refine ⟨fun hnone => (Shell.answer_of_added_eq_none colours limits hnone).2, ?_⟩
    intro source number hadded run course results
    let first := (Runner.newShell showTree).session
    have hfirst : first.books.Legible := ⟨Store.legible_start, List.forall_mem_nil _⟩
    obtain ⟨hsession, hidle, hqueue, -⟩ := Shell.session_afterAll colours limits showTree lines
    -- The books of the session are legible, as the first ones are.
    have hlegible : session.books.Legible := by
      rw [show session = _ from hsession]
      exact hfirst.enterAll limits first.root _
    exact Shell.answer_contained colours limits hidle hqueue hlegible hadded

/-- A division that an earlier text has put into a function is reported, and a sum of a number of 6562
digits and a truth value is the failure of the shell. -/
theorem failures_are_contained_division :
    let limits : Limits := ⟨999, 999⟩
    let earlier := ["let f = |x| => x / 0", "let c = |x| => x * x * x f(1) 2"]
    let store := Program.storeAfter limits Program.root earlier Program.start
    let shell := (Runner.newShell false).afterAll false limits earlier
    let line := "c(c(c(c(c(c(c(c(10)))))))) + true"
    (outcome (Program.interpret limits "f(2)" Program.root) store).1 =
        .error (.language (.divisionByZero "2")) ∧
      Program.Stops limits Program.root "f(2)" store (.language (.divisionByZero "2")) ∧
      shell.added "f(2)" = some ("f(2)", 3) ∧
      (shell.answer false limits "f(2)").printed = "Traceback:\n  File '<in>', line 3:\n" ++
        "    f(2)\nerror: cannot divide '2' by zero\n" ∧
      (shell.answer false limits "f(2)").outcome = .continues ∧
      shell.added line = some (line, 3) ∧
      (shell.answer false limits line).outcome = .fails .numberTooLong := by
  intro limits earlier store shell line
  have hresult : (outcome (Program.interpret limits "f(2)" Program.root) store).1 =
      .error (.language (.divisionByZero "2")) := by decide +kernel
  have hadded : shell.added line = some (line, 3) := by decide +kernel
  obtain ⟨htext, hshell⟩ := failures_are_contained false limits
  obtain ⟨-, hsource⟩ := hshell false earlier line
  obtain ⟨-, -, hdigits, -⟩ := hsource line 3 hadded
  refine ⟨hresult, ?_, by decide +kernel, by decide +kernel, by decide +kernel, hadded, ?_⟩
  · rcases htext earlier "f(2)" with ⟨values, hvalues⟩ | ⟨fault, hfault, -, hstops⟩
    · rw [hresult] at hvalues
      cases hvalues
    · rw [hresult] at hfault
      cases hfault
      exact hstops
  · exact hdigits .numberTooLong (by decide +kernel) (.inl rfl)

end LetLang
