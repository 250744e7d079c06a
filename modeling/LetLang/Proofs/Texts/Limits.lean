import LetLang.Proofs.Budget
import LetLang.Proofs.Sessions.Courses
/-!
# Larger limits

The limits for nested productions and nested evaluations cut runs short and do nothing else. What
does not run into a limit is the same with larger ones, results and faults and all that is left
behind. A text that runs into one has completed some of its expressions before, and with larger
limits these come first and are the same.
-/
namespace LetLang

open LetLang.Parser

variable {S V : Type}

/-- The expressions of a list that are evaluated with a value, from a state on. -/
def completed (eval : Expr → ExceptT Fault (StateM S) V) (exprs : List Expr) (s : S) :
    List (Step S V) :=
  (steps eval exprs s).filter (·.result.isOk)

section Completed

variable {eval : Expr → ExceptT Fault (StateM S) V} {expr : Expr} {s s' : S}

theorem completed_cons_of_ok {value : V} (h : outcome (eval expr) s = (.ok value, s'))
    (exprs : List Expr) :
    completed eval (expr :: exprs) s = ⟨expr, .ok value, s'⟩ :: completed eval exprs s' := by
  rw [completed, steps, h]
  rfl

theorem completed_cons_of_error {fault : Fault} (h : outcome (eval expr) s = (.error fault, s'))
    (exprs : List Expr) : completed eval (expr :: exprs) s = [] := by
  rw [completed, steps, h]
  rfl

/-- What is completed with less is completed with more, if the first expressions are the same. -/
theorem completed_prefix {short long : Expr → ExceptT Fault (StateM S) V}
    (h : ∀ expr, Prolongs (long expr) (short expr)) (exprs more : List Expr) (s : S) :
    completed short exprs s <+: completed long (exprs ++ more) s := by
  induction exprs generalizing s with
  | nil => exact List.nil_prefix
  | cons expr exprs ih =>
    rw [List.cons_append]
    rcases hshort : outcome (short expr) s with ⟨fault | value, s'⟩
    · rw [completed_cons_of_error hshort]
      exact List.nil_prefix
    · have hlong : outcome (long expr) s = (.ok value, s') := by
        rw [h expr s (by simp [hshort]), hshort]
      rw [completed_cons_of_ok hshort, completed_cons_of_ok hlong]
      exact List.cons_prefix_cons.2 ⟨rfl, ih s'⟩

/-- The state that steps lead to. -/
def stateAfter (s : S) (done : List (Step S V)) : S :=
  done.foldl (fun _ step => step.after) s

/-- How the evaluation of expressions in order ends, when some of them were completed: with the
values of all, with the fault that has stopped their reading, or with that of the next one. -/
inductive EndsBehind (eval : Expr → ExceptT Fault (StateM S) V) (exprs : List Expr)
    (stop : Option Fault) (done : List (Step S V)) (s : S) : Except Fault (List V) × S → Prop
  | finished {values} (hall : done.map Step.expr = exprs) (hstop : stop = none)
      (hvalues : done.map Step.result = values.map .ok) :
      EndsBehind eval exprs stop done s (.ok values, stateAfter s done)
  | stopped {fault} (hall : done.map Step.expr = exprs) (hstop : stop = some fault) :
      EndsBehind eval exprs stop done s (.error fault, stateAfter s done)
  | failed {next fault s'} (hnext : done.map Step.expr ++ [next] <+: exprs)
      (hfault : outcome (eval next) (stateAfter s done) = (.error fault, s')) :
      EndsBehind eval exprs stop done s (.error fault, s')

theorem EndsBehind.cons {exprs : List Expr} {stop : Option Fault} {done : List (Step S V)}
    {run : Except Fault (List V) × S} (h : EndsBehind eval exprs stop done s' run) (expr : Expr)
    (value : V) (s : S) :
    EndsBehind eval (expr :: exprs) stop (⟨expr, .ok value, s'⟩ :: done) s
      (run.map (Except.map (value :: ·)) id) := by
  cases h with
  | finished hall hstop hvalues =>
    refine .finished (congrArg (expr :: ·) hall) hstop ?_
    rw [List.map_cons, List.map_cons, hvalues]
  | stopped hall hstop => exact .stopped (congrArg (expr :: ·) hall) hstop
  | failed hnext hfault => exact .failed (List.cons_prefix_cons.2 ⟨rfl, hnext⟩) hfault

/-- The expressions that are completed are those that evaluation in order gets through. -/
theorem inOrder_endsBehind (eval : Expr → ExceptT Fault (StateM S) V) (stop : Option Fault)
    (exprs : List Expr) (s : S) :
    EndsBehind eval exprs stop (completed eval exprs s) s
      (outcome (inOrder eval stop exprs) s) := by
  induction exprs generalizing s with
  | nil =>
    cases stop with
    | none => exact .finished rfl rfl rfl
    | some fault => exact .stopped rfl rfl
  | cons expr exprs ih =>
    rw [inOrder]
    rcases hrun : outcome (eval expr) s with ⟨fault | value, s'⟩
    · rw [completed_cons_of_error hrun, outcome_bind_of_error hrun]
      exact .failed (List.prefix_append [expr] exprs) hrun
    · rw [completed_cons_of_ok hrun, outcome_bind_of_ok hrun, ← map_eq_pure_bind, outcome_map]
      exact (ih s').cons expr value s

end Completed

/-! ### Evaluating in order -/

/-- The fault that stops the reading counts only if all expressions before it are evaluated. If that
is the limit, more may be read with a larger one. -/
theorem inOrder_prolongs {short long : Expr → ExceptT Fault (StateM S) V}
    (h : ∀ expr, Prolongs (long expr) (short expr)) {stop stop' : Option Fault}
    (exprs : List Expr) {more : List Expr}
    (hstop : stop ≠ some .recursionLimit → more = [] ∧ stop' = stop) :
    Prolongs (inOrder long stop' (exprs ++ more)) (inOrder short stop exprs) := by
  induction exprs with
  | nil =>
    by_cases hlimit : stop = some .recursionLimit
    · rw [hlimit]
      exact prolongs_ranOut _
    · obtain ⟨rfl, rfl⟩ := hstop hlimit
      exact .refl _
  | cons expr exprs ih =>
    exact (h expr).bind fun value => ih.bind fun values => .refl _

/-! ### Reading -/

theorem parseNext_prolongs {budget larger : Nat} (h : budget ≤ larger) :
    Prolongs (parseNext larger) (parseNext budget) :=
  (read_prolongs h .expr).bind fun _ => .refl _

namespace Program

/-- With a larger limit a stream holds the same expressions, and more only if the limit has stopped
its reading. -/
theorem Reads.prolonged {parsing larger : Nat} {s : TokenStream} {exprs : List Expr}
    {stop : Option Fault} (h : Reads parsing s exprs stop) (hle : parsing ≤ larger) :
    ∃ more stop', Reads larger s (exprs ++ more) stop' ∧
      (stop ≠ some .recursionLimit → more = [] ∧ stop' = stop) := by
  induction h with
  | atEnd h => exact ⟨[], none, .atEnd h, fun _ => ⟨rfl, rfl⟩⟩
  | noToken h => exact ⟨[], _, .noToken h, fun _ => ⟨rfl, rfl⟩⟩
  | @noExpr s s₁ s₂ fault h hparse =>
    by_cases hlimit : fault = .recursionLimit
    · obtain ⟨exprs, stop, hreads⟩ := exists_reads larger s
      exact ⟨exprs, stop, hreads, fun hstop => absurd (congrArg some hlimit) hstop⟩
    · have hsame := parseNext_prolongs hle s₁ (by rwa [hparse, ranOut_error_iff])
      exact ⟨[], some fault, .noExpr h (hsame.trans hparse), fun _ => ⟨rfl, rfl⟩⟩
  | @cons s s₁ s₂ expr found exprs stop h hparse _ ih =>
    obtain ⟨more, stop', hrest, hstop⟩ := ih
    have hsame := parseNext_prolongs hle s₁ (by simp [hparse])
    exact ⟨more, stop', .cons h (hsame.trans hparse) hrest, hstop⟩

theorem expressions_prolonged {parsing larger : Nat} (hle : parsing ≤ larger) (text : String) :
    ∃ more, (expressions larger text).1 = (expressions parsing text).1 ++ more ∧
      ((expressions parsing text).2 ≠ some .recursionLimit →
        more = [] ∧ (expressions larger text).2 = (expressions parsing text).2) := by
  rcases hexpressions : expressions parsing text with ⟨exprs, stop⟩
  obtain ⟨more, stop', hlonger, hstop⟩ := (reads_iff.2 hexpressions).prolonged hle
  rw [reads_iff.1 hlonger]
  exact ⟨more, rfl, hstop⟩

/-- The expressions of a text that are evaluated with a value, each with the store after it. -/
def completed (limits : Limits) (scope : ScopeId) (text : String) (store : Store) :
    List (Step Store Value) :=
  LetLang.completed (evaluate limits.evaluation · scope) (expressions limits.parsing text).1 store

end Program

/-- With larger limits, an evaluation, a call and the reading of a production that do not run into a
limit give the same result or fault and leave the same store or stream. So does a text that is
interpreted. What a text has completed, also if it then runs into a limit, it completes with the
same values and bindings, and as the first of what it completes. Interpreting goes through what is
completed, and ends right behind it. -/
theorem limits_only_cut_short {limits larger : Limits} (hparsing : limits.parsing ≤ larger.parsing)
    (hevaluation : limits.evaluation ≤ larger.evaluation) :
    (∀ expr scope store,
      let short := outcome (evaluate limits.evaluation expr scope) store
      ¬ RanOut short.1 → outcome (evaluate larger.evaluation expr scope) store = short) ∧
    (∀ callee argument store,
      let short := outcome (call limits.evaluation callee argument) store
      ¬ RanOut short.1 → outcome (call larger.evaluation callee argument) store = short) ∧
    (∀ production stream,
      let short := outcome (read limits.parsing production) stream
      ¬ RanOut short.1 → outcome (read larger.parsing production) stream = short) ∧
    (∀ stream,
      let short := outcome (parse limits.parsing) stream
      ¬ RanOut short.1 → outcome (parse larger.parsing) stream = short) ∧
    ∀ text scope store,
      let short := outcome (Program.interpret limits text scope) store
      let done := Program.completed limits scope text store
      (¬ RanOut short.1 → outcome (Program.interpret larger text scope) store = short) ∧
      done <+: Program.completed larger scope text store ∧
      EndsBehind (evaluate limits.evaluation · scope) (Program.expressions limits.parsing text).1
        (Program.expressions limits.parsing text).2 done store short := by
  refine ⟨fun expr scope => evaluate_prolongs hevaluation expr scope,
    fun callee argument => call_prolongs hevaluation callee argument,
    fun production => read_prolongs hparsing production, read_prolongs hparsing .expr, ?_⟩
  intro text scope store short done
  obtain ⟨more, hexprs, hstop⟩ := Program.expressions_prolonged hparsing text
  have heval := fun expr => evaluate_prolongs hevaluation expr scope
  refine ⟨?_, ?_, ?_⟩
  · have hprolongs := inOrder_prolongs heval (Program.expressions limits.parsing text).1 hstop
    rw [← hexprs, ← Program.interpret_eq_inOrder, ← Program.interpret_eq_inOrder] at hprolongs
    exact hprolongs store
  · simp only [done, Program.completed]
    rw [hexprs]
    exact completed_prefix heval _ more store
  · simp only [short]
    rw [Program.interpret_eq_inOrder]
    exact inOrder_endsBehind _ _ _ store

/-- The second expression runs into the limit for evaluations, and the third is not reached. -/
theorem limits_only_cut_short_second_expression :
    let text := "let f = |x| => x\nf(f(f(f(1))))\n2"
    let short := Program.completed ⟨99, 4⟩ Program.root text Program.start
    let long := Program.completed ⟨99, 99⟩ Program.root text Program.start
    RanOut (outcome (Program.interpret ⟨99, 4⟩ text Program.root) Program.start).1 ∧
      short.length = 1 ∧ long.length = 3 ∧ short <+: long := by
  intro text short long
  have h := @limits_only_cut_short ⟨99, 4⟩ ⟨99, 99⟩ (by decide) (by decide)
  obtain ⟨-, hprefix, -⟩ := h.2.2.2.2 text Program.root Program.start
  exact ⟨by decide +kernel, by decide +kernel, by decide +kernel, hprefix⟩

end LetLang
