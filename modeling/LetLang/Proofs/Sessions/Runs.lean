import LetLang.Proofs.Display
import LetLang.Proofs.Sessions.Courses
import LetLang.Session
/-!
# Runs of sessions

A session that runs its sources follows their course: it keeps the values, ends with the fault, and
is left with the store of the course. Showing the trees of the expressions makes no difference to
it but for what is printed.
-/
namespace LetLang

/-- The run of a session comes to what a course says, and changes nothing else but the reporter. -/
structure Session.Follows (session : Session) (run : Session.Run) (course : Course) : Prop where
  fault_eq : run.fault = course.fault
  session_eq : run.session =
    { session with
      store := course.store
      results := session.results ++ course.values
      reporter := run.session.reporter }

/-- Two runs, of which the first also shows trees; the second prints nothing. -/
structure Session.Run.Shows (shown quiet : Session.Run) : Prop where
  session_eq : shown.session = { quiet.session with showTree := true }
  fault_eq : shown.fault = quiet.fault
  printed_eq : quiet.printed = ""
  quiet_session : quiet.session.showTree = false

namespace Session

variable {limits : Limits} {session : Session}

theorem follows_nothing (session : Session) (fault : Option Fault) (reporter : Reporter) :
    session.Follows { session := { session with reporter }, printed := "", fault }
      { values := [], fault, store := session.store } :=
  ⟨rfl, by rw [List.append_nil]⟩

theorem Follows.root_eq {run : Run} {course : Course} (h : session.Follows run course) :
    run.session.root = session.root := by
  rw [h.session_eq]

theorem Follows.store_eq {run : Run} {course : Course} (h : session.Follows run course) :
    run.session.store = course.store := by
  rw [h.session_eq]

/-- A run that goes on, unless it has failed, follows a course that does. -/
theorem Follows.andThen {first rest : Run} {course course' : Course} (printed : String)
    (hfirst : session.Follows first course) (hrest : first.session.Follows rest course') :
    session.Follows
      (match first.fault with
      | some _ => first
      | none => { rest with printed })
      (match course.fault with
      | some _ => course
      | none => course'.after course.values) := by
  rw [hfirst.fault_eq]
  cases course.fault with
  | some fault => exact hfirst
  | none =>
    refine ⟨hrest.fault_eq, ?_⟩
    have hsession := hrest.session_eq
    rw [hfirst.session_eq] at hsession
    dsimp only
    rw [hsession]
    simp [Course.after]

theorem Run.Shows.andThen {first first' rest rest' : Run} (printed : String)
    (hfirst : Run.Shows first first')
    (hrest : Run.Shows rest rest') :
    Run.Shows
      (match first.fault with
      | some _ => first
      | none => { rest with printed })
      (match first'.fault with
      | some _ => first'
      | none => { rest' with printed := first'.printed ++ rest'.printed }) := by
  rw [hfirst.fault_eq]
  cases first'.fault with
  | some fault => exact hfirst
  | none =>
    refine ⟨hrest.session_eq, hrest.fault_eq, ?_, hrest.quiet_session⟩
    rw [hfirst.printed_eq, hrest.printed_eq]
    rfl

/-! ### One expression -/

theorem runExpr_follows {expr : Expr} (h : (expr.display? 0).isSome) :
    session.Follows (session.runExpr limits expr)
      (evaluateAll limits.evaluation session.root [expr] session.store) := by
  have hprinted : ∃ printed, (if session.showTree then (expr.display? 0).map (· ++ "\n")
      else some "") = some printed := by
    obtain ⟨text, htext⟩ := Option.isSome_iff_exists.1 h
    cases session.showTree <;> simp [htext]
  obtain ⟨printed, hprinted⟩ := hprinted
  rw [runExpr, hprinted]
  dsimp only [evaluateAll]
  rw [← outcome]
  rcases outcome (evaluate limits.evaluation expr session.root) session.store with ⟨_ | _, _⟩
  · exact ⟨rfl, by simp⟩
  · exact ⟨rfl, by simp [Course.after]⟩

theorem runExpr_shows {expr : Expr} (h : (expr.display? 0).isSome)
    (hquiet : session.showTree = false) :
    Run.Shows ({ session with showTree := true }.runExpr limits expr)
      (session.runExpr limits expr) := by
  obtain ⟨text, htext⟩ := Option.isSome_iff_exists.1 h
  rw [runExpr, runExpr, htext, hquiet]
  dsimp only [Option.map_some, if_true, Bool.false_eq_true, if_false]
  rw [← outcome]
  rcases outcome (evaluate limits.evaluation expr session.root) session.store with ⟨_ | _, _⟩
  · exact ⟨rfl, rfl, rfl, rfl⟩
  · exact ⟨rfl, rfl, rfl, rfl⟩

/-! ### One source -/

theorem upTo_evaluateAll_cons (budget : Nat) (scope : ScopeId) (expr : Expr) (exprs : List Expr)
    (stop : Option Fault) (store : Store) :
    let first := evaluateAll budget scope [expr] store
    (evaluateAll budget scope (expr :: exprs) store).upTo stop =
      match first.fault with
      | some _ => first
      | none => ((evaluateAll budget scope exprs first.store).upTo stop).after first.values := by
  dsimp only [evaluateAll]
  rcases outcome (evaluate budget expr scope) store with ⟨_ | _, _⟩ <;> rfl

/-- What a run of a source does to any session: it evaluates the expressions one after the other,
each as the expression that begins with some token, and then meets what stopped their reading. -/
inductive Through (limits : Limits) (source : String) (number : LineNumber) :
    List Expr → Option Fault → (Session → Run) → Prop
  | done {fault : Option Fault} :
      Through limits source number [] fault fun session => { session, printed := "", fault }
  | misread {fault : Fault} (token : Token) :
      Through limits source number [] (some fault) fun session =>
        { session := session.beginAt source number token, printed := "", fault := some fault }
  | evaluated {expr : Expr} {exprs : List Expr} {stop : Option Fault} {rest : Session → Run}
      (token : Token) (hrest : Through limits source number exprs stop rest) :
      Through limits source number (expr :: exprs) stop fun session =>
        let first := (session.beginAt source number token).runExpr limits expr
        match first.fault with
        | some _ => first
        | none =>
          { rest first.session with printed := first.printed ++ (rest first.session).printed }

/-- Looking for the end looks at the next token. -/
theorem on_atEnd (stream : TokenStream) :
    Reading.on TokenStream.atEnd stream =
      match Reading.on TokenStream.peek stream with
      | (.error fault, stream) => (.error fault, stream)
      | (.ok token, stream) => (.ok (token.kind ∈ [.eof]), stream) := by
  rcases hpeek : Reading.on TokenStream.peek stream with ⟨fault | token, stream₁⟩
  · exact outcome_bind_of_error hpeek _
  · exact outcome_bind_of_ok hpeek _

theorem runStream_through (limits : Limits) (source : String) (number : LineNumber)
    (rounds : List Token) (stream : TokenStream) :
    Through limits source number (Program.readStream limits.parsing rounds stream).1
      (Program.readStream limits.parsing rounds stream).2
      (runStream limits source number rounds stream) := by
  induction rounds generalizing stream with
  | nil =>
    have hread := Program.readStream.eq_def limits.parsing [] stream
    have hrun := funext (runStream.eq_def limits source number [] stream)
    dsimp only at hread hrun
    rw [hread, hrun, on_atEnd]
    rcases Reading.on TokenStream.peek stream with ⟨fault | token, stream₁⟩
    · exact .done
    · dsimp only
      cases decide (token.kind ∈ [.eof]) <;> exact .done
  | cons round rounds ih =>
    have hread := Program.readStream.eq_def limits.parsing (round :: rounds) stream
    have hrun := funext (runStream.eq_def limits source number (round :: rounds) stream)
    dsimp only at hread hrun
    rw [hread, hrun, on_atEnd]
    rcases Reading.on TokenStream.peek stream with ⟨fault | token, stream₁⟩
    · exact .done
    · dsimp only
      by_cases hkind : token.kind = .eof
      · rw [decide_eq_true (by simp [hkind])]
        simp only [if_pos hkind]
        exact .done
      · rw [decide_eq_false (by simp [hkind])]
        simp only [if_neg hkind]
        rcases Reading.on (Parser.parseNext limits.parsing) stream₁ with
          ⟨fault | ⟨expr, more⟩, stream₂⟩
        · exact .misread token
        · exact .evaluated token (ih stream₂)

theorem Through.follows {source : String} {number : LineNumber} {exprs : List Expr}
    {stop : Option Fault} {run : Session → Run} (h : Through limits source number exprs stop run) :
    (∀ expr ∈ exprs, (expr.display? 0).isSome) → ∀ session : Session,
      session.Follows (run session)
        ((evaluateAll limits.evaluation session.root exprs session.store).upTo stop) := by
  induction h with
  | done => exact fun _ session => follows_nothing session _ session.reporter
  | misread token =>
    exact fun _ session => follows_nothing session _ (session.beginAt source number token).reporter
  | @evaluated expr exprs stop rest token _ ih =>
    intro hexprs session
    rw [List.forall_mem_cons] at hexprs
    let begun := session.beginAt source number token
    have hfirst : begun.Follows (begun.runExpr limits expr) _ := runExpr_follows hexprs.1
    have hrest := ih hexprs.2 (begun.runExpr limits expr).session
    rw [hfirst.root_eq, hfirst.store_eq] at hrest
    have hboth := hfirst.andThen
      ((begun.runExpr limits expr).printed ++ (rest (begun.runExpr limits expr).session).printed)
      hrest
    rw [upTo_evaluateAll_cons]
    exact ⟨hboth.fault_eq, hboth.session_eq⟩

theorem Through.shows {source : String} {number : LineNumber} {exprs : List Expr}
    {stop : Option Fault} {run : Session → Run} (h : Through limits source number exprs stop run) :
    (∀ expr ∈ exprs, (expr.display? 0).isSome) → ∀ session : Session, session.showTree = false →
      Run.Shows (run { session with showTree := true }) (run session) := by
  induction h with
  | done => exact fun _ session hquiet => ⟨rfl, rfl, rfl, hquiet⟩
  | misread token => exact fun _ session hquiet => ⟨rfl, rfl, rfl, hquiet⟩
  | @evaluated expr exprs stop rest token _ ih =>
    intro hexprs session hquiet
    rw [List.forall_mem_cons] at hexprs
    let begun := session.beginAt source number token
    have hfirst : Run.Shows ({ begun with showTree := true }.runExpr limits expr)
        (begun.runExpr limits expr) := runExpr_shows hexprs.1 hquiet
    have hrest := ih hexprs.2 _ hfirst.quiet_session
    rw [← hfirst.session_eq] at hrest
    exact hfirst.andThen _ hrest

/-- Running a source follows the course of its text. -/
theorem runSource_follows (source : String) (number : LineNumber) (session : Session) :
    session.Follows
      (runStream limits source number (TokenStream.ofText source).pending
        (TokenStream.ofText source) session)
      (Program.course limits session.root source session.store) :=
  (runStream_through limits source number _ _).follows
    (fun _ hexpr => Program.isSome_display?_of_mem hexpr 0) session

theorem runSource_shows (source : String) (number : LineNumber) {session : Session}
    (hquiet : session.showTree = false) :
    Run.Shows
      (runStream limits source number (TokenStream.ofText source).pending
        (TokenStream.ofText source) { session with showTree := true })
      (runStream limits source number (TokenStream.ofText source).pending
        (TokenStream.ofText source) session) :=
  (runStream_through limits source number _ _).shows
    (fun _ hexpr => Program.isSome_display?_of_mem hexpr 0) session hquiet

/-! ### All sources -/

theorem runSources_follows (sources : List (String × LineNumber)) (session : Session) :
    session.Follows (runSources limits sources session)
      (Program.courses limits session.root (sources.map Prod.fst) session.store) := by
  induction sources generalizing session with
  | nil => exact follows_nothing session none session.reporter
  | cons source sources ih =>
    obtain ⟨source, number⟩ := source
    have hfirst := @runSource_follows limits source number session
    have hrest := ih (runStream limits source number (TokenStream.ofText source).pending
      (TokenStream.ofText source) session).session
    rw [hfirst.root_eq, hfirst.store_eq] at hrest
    exact hfirst.andThen _ hrest

theorem runSources_shows (sources : List (String × LineNumber)) {session : Session}
    (hquiet : session.showTree = false) :
    Run.Shows (runSources limits sources { session with showTree := true })
      (runSources limits sources session) := by
  induction sources generalizing session with
  | nil => exact ⟨rfl, rfl, rfl, hquiet⟩
  | cons source sources ih =>
    obtain ⟨source, number⟩ := source
    have hfirst := @runSource_shows limits source number session hquiet
    have hrest := ih hfirst.quiet_session
    rw [← hfirst.session_eq] at hrest
    exact hfirst.andThen _ hrest

/-- A run of a session follows the course of the texts in its queue, which it empties. -/
theorem run_follows (limits : Limits) (session : Session) :
    { session with queue := [] }.Follows (session.run limits)
      (Program.courses limits session.root (session.queue.map Prod.fst) session.store) :=
  runSources_follows session.queue { session with queue := [] }

theorem run_shows (limits : Limits) (session : Session) :
    Run.Shows ({ session with showTree := true }.run limits)
      ({ session with showTree := false }.run limits) := by
  have hquiet : { session with showTree := false, queue := [] }.showTree = false := rfl
  exact runSources_shows session.queue hquiet

end Session
end LetLang
