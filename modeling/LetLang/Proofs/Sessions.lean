import LetLang.Proofs.Sessions.Runs
/-!
# Sessions and their results

Whatever a host does with a session, no value is lost and none is made up: what it has taken from
the results and what is still among them are, in order, the values of the courses that the queued
texts take in the session's store.
-/
namespace LetLang

namespace Session

inductive Action where
  | add (source : String) (number : LineNumber)
  | run
  /-- A run whose fault is settled with the reporter. -/
  | guardedRun (colours : Bool)
  | pop

/-- The session after an action, and the text of the result that the action has taken, if any. -/
def perform (limits : Limits) (session : Session) : Action → Session × List (Option String)
  | .add source number => (session.add source number, [])
  | .run => ((session.run limits).session, [])
  | .guardedRun colours => (((session.run limits).settle colours).1, [])
  | .pop =>
    match session.pop? with
    | none => (session, [])
    | some (text, session) => (session, [text])

/-- The session after some actions, and the texts of the results that they have taken, in order. -/
def performAll (limits : Limits) : List Action → Session → Session × List (Option String)
  | [], session => (session, [])
  | action :: actions, session =>
    let (session, taken) := session.perform limits action
    let (session, others) := performAll limits actions session
    (session, taken ++ others)

/-- The texts that wait, the store, and every value that there has been. -/
structure Ledger where
  queue : List String
  store : Store
  values : List Value

def ledger (session : Session) : Ledger :=
  { queue := session.queue.map Prod.fst, store := session.store, values := session.results }

/-- What an action enters. Runs follow the courses of the texts that wait; taking a result enters
nothing. -/
def Ledger.enter (limits : Limits) (root : ScopeId) (ledger : Ledger) : Action → Ledger
  | .add source _ =>
    if Text.allBlank source then ledger else { ledger with queue := ledger.queue ++ [source] }
  | .run | .guardedRun _ =>
    let course := Program.courses limits root ledger.queue ledger.store
    { queue := [], store := course.store, values := ledger.values ++ course.values }
  | .pop => ledger

/-- A session, and the texts that were taken from it, agree with a ledger. -/
structure Balances (root : ScopeId) (ledger : Ledger) (session : Session)
    (taken : List (Option String)) : Prop where
  root_eq : session.root = root
  queue_eq : session.queue.map Prod.fst = ledger.queue
  store_eq : session.store = ledger.store
  texts_eq : taken ++ session.results.map Value.text? = ledger.values.map Value.text?

variable {root : ScopeId} {ledger : Ledger} {session : Session}
  {taken : List (Option String)}

theorem Balances.run (limits : Limits) (h : Balances root ledger session taken) :
    Balances root (ledger.enter limits root .run) (session.run limits).session taken := by
  have hsession := (session.run_follows limits).session_eq
  rw [h.root_eq, h.queue_eq, h.store_eq] at hsession
  rw [hsession]
  refine ⟨rfl, rfl, rfl, ?_⟩
  simp only [Ledger.enter, List.map_append, ← h.texts_eq, List.append_assoc]

/-- The reporter is no matter of the ledger. -/
theorem Balances.settle (h : Balances root ledger session taken) (run : Run)
    (hrun : run.session = session) (colours : Bool) :
    Balances root ledger (run.settle colours).1 taken := by
  subst hrun
  exact ⟨h.root_eq, h.queue_eq, h.store_eq, h.texts_eq⟩

theorem Balances.perform (limits : Limits) (h : Balances root ledger session taken)
    (action : Action) :
    Balances root (ledger.enter limits root action) (session.perform limits action).1
      (taken ++ (session.perform limits action).2) := by
  cases action with
  | add source number =>
    rw [Session.perform, List.append_nil, Session.add, Ledger.enter]
    by_cases hblank : Text.allBlank source = true
    · rw [if_pos hblank, if_pos hblank]
      exact h
    · rw [if_neg hblank, if_neg hblank]
      exact ⟨h.root_eq, by rw [List.map_append, h.queue_eq]; rfl, h.store_eq, h.texts_eq⟩
  | run =>
    rw [Session.perform, List.append_nil]
    exact h.run limits
  | guardedRun colours =>
    rw [Session.perform, List.append_nil]
    exact (h.run limits).settle _ rfl colours
  | pop =>
    rw [Session.perform, Session.pop?, Ledger.enter]
    cases hresults : session.results with
    | nil =>
      rw [List.append_nil]
      exact h
    | cons value results =>
      have htexts := h.texts_eq
      rw [hresults, List.map_cons] at htexts
      refine ⟨h.root_eq, h.queue_eq, h.store_eq, ?_⟩
      rw [List.append_assoc]
      exact htexts

theorem Balances.performAll (limits : Limits) (h : Balances root ledger session taken)
    (actions : List Action) :
    Balances root (actions.foldl (Ledger.enter limits root) ledger)
      (performAll limits actions session).1
      (taken ++ (Session.performAll limits actions session).2) := by
  induction actions generalizing ledger session taken with
  | nil =>
    rw [Session.performAll, List.append_nil]
    exact h
  | cons action actions ih =>
    have hrest := ih (h.perform limits action)
    rw [List.append_assoc] at hrest
    exact hrest

end Session

/-- Sessions and interpretation follow one two-phase course. Its first phase reads the expressions
of a text up to the end or the first fault, its second evaluates them. Interpreting a text gives
the result and the store of its course. A session that runs follows the courses of the texts in its
queue up to the first that fails, and leaves the queue empty; that it shows trees makes no difference
but for what is printed. No number in a tree is too long for it to be displayed; the frames that it
takes to display a deep one are set aside. Over any actions of a host, the texts of the results that
were taken and those of the results that remain are those of all values. -/
theorem sessions_follow_courses (limits : Limits) :
    (∀ text exprs stop,
      Program.Reads limits.parsing (TokenStream.ofText text) exprs stop ↔
        Program.expressions limits.parsing text = (exprs, stop)) ∧
      (∀ text scope store,
        outcome (Program.interpret limits text scope) store =
          ((Program.course limits scope text store).result,
            (Program.course limits scope text store).store)) ∧
      (∀ session : Session,
        let run := session.run limits
        let course :=
          Program.courses limits session.root (session.queue.map Prod.fst) session.store
        run.fault = course.fault ∧
          run.session =
            { session with
              queue := []
              store := course.store
              results := session.results ++ course.values
              reporter := run.session.reporter }) ∧
      (∀ session : Session,
        let shown := { session with showTree := true }.run limits
        let quiet := { session with showTree := false }.run limits
        shown.session = { quiet.session with showTree := true } ∧ shown.fault = quiet.fault) ∧
      (∀ text, ∀ expr ∈ (Program.expressions limits.parsing text).1, ∀ depth,
        (expr.display? depth).isSome) ∧
      ∀ (session : Session) (actions : List Session.Action),
        let (after, taken) := Session.performAll limits actions session
        let ledger := actions.foldl (Session.Ledger.enter limits session.root) session.ledger
        taken ++ after.results.map Value.text? = ledger.values.map Value.text? ∧
          after.store = ledger.store ∧ after.queue.map Prod.fst = ledger.queue := by
  refine ⟨fun _ _ _ => Program.reads_iff, fun text scope store =>
    Program.outcome_interpret limits text scope store, ?_, ?_, ?_, ?_⟩
  · intro session
    exact ⟨(session.run_follows limits).fault_eq, (session.run_follows limits).session_eq⟩
  · intro session
    exact ⟨(session.run_shows limits).session_eq, (session.run_shows limits).fault_eq⟩
  · intro text expr hexpr depth
    exact Program.isSome_display?_of_mem hexpr depth
  · intro session actions
    have hstart : Session.Balances session.root session.ledger session [] := ⟨rfl, rfl, rfl, rfl⟩
    have hend := hstart.performAll limits actions
    exact ⟨hend.texts_eq, hend.store_eq, hend.queue_eq⟩

theorem sessions_follow_courses_division :
    let session : Session :=
      { Session.new (.new false) "<in>" true with queue := [("let x = 2 x x / 0 )", 1), ("x", 2)] }
    Expr.define "x" (.int 2) ∈ (Program.expressions 99 "let x = 2 x x / 0 )").1 ∧
      ((Expr.define "x" (.int 2)).display? 0).isSome ∧
      (session.run ⟨99, 99⟩).fault = some (.language (.divisionByZero "2")) ∧
      (session.run ⟨99, 99⟩).session.queue = [] ∧
      (session.run ⟨99, 99⟩).session.results = [.int 2, .int 2] := by
  intro session
  obtain ⟨-, -, hruns, -, hshown, -⟩ := sessions_follow_courses ⟨99, 99⟩
  obtain ⟨hfault, hsession⟩ := hruns session
  have hmem : Expr.define "x" (.int 2) ∈ (Program.expressions 99 "let x = 2 x x / 0 )").1 := by
    decide +kernel
  refine ⟨hmem, hshown _ _ hmem 0, ?_, ?_, ?_⟩
  · rw [hfault]
    decide +kernel
  · rw [hsession]
  · rw [hsession]
    decide +kernel

end LetLang
