import LetLang.Proofs.Texts.Rounds
import LetLang.Session
/-!
# Rounds of the loops of a session

A session goes through each source that is queued with a loop of its own, up to the first that
fails. No loop has more rounds than its source has tokens, so that a session comes to an end with
what it has to run, if each evaluation does.
-/
namespace LetLang

open LetLang.Parser TokenStream

namespace Session

variable {limits : Limits} {source : String} {number : LineNumber}

/-- Running a source as a loop: its state is the session and what was printed so far. -/
def loop (limits : Limits) (source : String) (number : LineNumber) : Loop (Session × String) where
  start token state := (state.1.beginAt source number token, state.2)
  work expr state :=
    let run := state.1.runExpr limits expr
    ((run.session, state.2 ++ run.printed), run.fault)

theorem runStream_of_runs {s : TokenStream} {rounds : List Token} {a b : Session × String} {n : Nat}
    {stop : Option Fault} (h : (loop limits source number).Runs limits.parsing s a n b stop)
    (hrounds : s.pending.length ≤ rounds.length) :
    ∃ printed, b.2 = a.2 ++ printed ∧
      runStream limits source number rounds s a.1 = ⟨b.1, printed, stop⟩ := by
  rw [runStream.eq_def]
  dsimp only
  induction h generalizing rounds with
  | @noToken s s₁ a fault hpeek =>
    refine ⟨"", String.append_empty.symm, ?_⟩
    rw [show Reading.on peek s = _ from hpeek]
  | @atEnd s s₁ a token hpeek hkind =>
    refine ⟨"", String.append_empty.symm, ?_⟩
    rw [show Reading.on peek s = _ from hpeek]
    cases rounds with
    | nil => rfl
    | cons => exact if_pos hkind
  | @noExpr s s₁ s₂ a token fault hpeek hkind hparse =>
    obtain ⟨round, others, rfl⟩ := Program.exists_round (outcome_atEnd_of_ne hpeek hkind) hrounds
    refine ⟨"", String.append_empty.symm, ?_⟩
    rw [show Reading.on peek s = _ from hpeek]
    dsimp only
    rw [if_neg hkind, show Reading.on (parseNext limits.parsing) s₁ = _ from hparse]
    rfl
  | @failed s s₁ s₂ a b token expr more fault hpeek hkind hparse hwork =>
    obtain ⟨round, others, rfl⟩ := Program.exists_round (outcome_atEnd_of_ne hpeek hkind) hrounds
    rw [show Reading.on peek s = _ from hpeek]
    dsimp only
    rw [if_neg hkind, show Reading.on (parseNext limits.parsing) s₁ = _ from hparse]
    dsimp only [loop] at hwork ⊢
    generalize (a.1.beginAt source number token).runExpr limits expr = run at hwork ⊢
    obtain ⟨session, printed, found⟩ := run
    cases hwork
    exact ⟨printed, rfl, rfl⟩
  | @round s s₁ s₂ a b c token expr more n stop hpeek hkind hparse hwork hrest ih =>
    have hmore := outcome_atEnd_of_ne hpeek hkind
    have hless := Program.length_pending_lt hmore hparse
    obtain ⟨round, others, rfl⟩ := Program.exists_round hmore hrounds
    rw [List.length_cons] at hrounds
    obtain ⟨printed, hprinted, hothers⟩ := @ih others (by omega)
    rw [show Reading.on peek s = _ from hpeek]
    dsimp only
    rw [if_neg hkind, show Reading.on (parseNext limits.parsing) s₁ = _ from hparse]
    dsimp only [loop] at hwork ⊢
    generalize (a.1.beginAt source number token).runExpr limits expr = run at hwork ⊢
    obtain ⟨session, first, found⟩ := run
    cases hwork
    refine ⟨first ++ printed, by rw [hprinted, String.append_assoc], ?_⟩
    rw [runStream.eq_def]
    dsimp only at hothers ⊢
    rw [hothers]

/-- Sources that are run one after the other, each with a loop of its own, up to the first that
fails: the numbers of rounds of these loops, and what the run comes to. -/
inductive RunsEach (limits : Limits) : List (String × LineNumber) → Session → List Nat → Run → Prop
  | nil {session} : RunsEach limits [] session [] { session, printed := "", fault := none }
  | failed {source number sources session session' printed rounds fault}
      (h : (loop limits source number).Runs limits.parsing (ofText source) (session, "") rounds
        (session', printed) (some fault)) :
      RunsEach limits ((source, number) :: sources) session [rounds]
        { session := session', printed, fault := some fault }
  | cons {source number sources session session' printed rounds counts run}
      (h : (loop limits source number).Runs limits.parsing (ofText source) (session, "") rounds
        (session', printed) none)
      (hrest : RunsEach limits sources session' counts run) :
      RunsEach limits ((source, number) :: sources) session (rounds :: counts)
        { run with printed := printed ++ run.printed }

variable {sources : List (String × LineNumber)} {session : Session} {counts : List Nat} {run : Run}

theorem exists_runsEach (limits : Limits) (sources : List (String × LineNumber)) (session : Session) :
    ∃ counts run, RunsEach limits sources session counts run := by
  induction sources generalizing session with
  | nil => exact ⟨[], _, .nil⟩
  | cons first sources ih =>
    obtain ⟨source, number⟩ := first
    obtain ⟨rounds, ⟨session', printed⟩, stop, h⟩ :=
      (loop limits source number).exists_runs limits.parsing (ofText source) (session, "")
    cases stop with
    | some fault => exact ⟨[rounds], _, .failed h⟩
    | none =>
      obtain ⟨counts, run, hrest⟩ := ih session'
      exact ⟨rounds :: counts, _, .cons h hrest⟩

theorem RunsEach.runSources_eq (h : RunsEach limits sources session counts run) :
    runSources limits sources session = run := by
  induction h with
  | nil => rfl
  | failed h =>
    obtain ⟨made, hmade, hrun⟩ := runStream_of_runs h (Nat.le_refl _)
    rw [String.empty_append] at hmade
    subst hmade
    rw [runSources]
    dsimp only at hrun ⊢
    rw [hrun]
  | cons h hrest ih =>
    obtain ⟨made, hmade, hrun⟩ := runStream_of_runs h (Nat.le_refl _)
    rw [String.empty_append] at hmade
    subst hmade
    rw [runSources]
    dsimp only at hrun ⊢
    rw [hrun]
    dsimp only
    rw [ih]

/-- No loop has more rounds than its source has tokens. -/
theorem RunsEach.rounds_le (h : RunsEach limits sources session counts run) :
    List.Forall₂ (fun rounds source => rounds ≤ Loop.tokensLeft (ofText source.1))
      counts (sources.take counts.length) := by
  induction h with
  | nil => exact .nil
  | failed h => exact .cons h.rounds_le .nil
  | cons h _ ih => exact .cons h.rounds_le ih

end Session

/-- Where the end of a source is still to come, every production, and every argument list, gives one
and the same with all budgets that are large enough: an expression or a complaint about a token. The
loops in them never end for want of rounds. An expression that is read takes a token at least, and
never the end of the source. So, whatever the limits are, the loops over the expressions of a text
and over the sources of a session come to an end; they have no more rounds than there are tokens
before the end of the source, and interpreting and running come to what the loops come to. Reading a
text is not stopped by the limit for nesting, if that is large enough. -/
theorem reading_comes_to_an_end :
    (∀ (s : TokenStream) (tokens : List Token) (last : Token),
      s.pending = tokens ++ [last] → last.kind = .eof → s.feed.ending = none →
      (∀ production, Settles (read · production) (production.nesting s.pending.length) s) ∧
      Settles (fun budget => argumentList (read budget .argument))
        (Production.argument.nesting s.pending.length) s) ∧
    (∀ (s : TokenStream) (rounds : List Token) (budget : Nat),
      s.pending.length ≤ rounds.length →
      (∀ level left,
        outcome (operations level (read budget level.operand) rounds left) s =
          outcome (operations level (read budget level.operand) s.pending left) s) ∧
      (∀ callee,
        outcome (calls (read budget .argument) rounds callee) s =
          outcome (calls (read budget .argument) s.pending callee) s) ∧
      outcome (separated .rparen (read budget .argument) rounds) s =
        outcome (separated .rparen (read budget .argument) s.pending) s ∧
      outcome (separated .vbar identifier rounds) s =
        outcome (separated .vbar identifier s.pending) s) ∧
    (∀ budget (s s' : TokenStream) expr, outcome (parse budget) s = (.ok expr, s') →
      ∃ taken, taken ≠ [] ∧ s.pending = taken ++ s'.pending ∧
        ∀ token ∈ taken, token.kind ≠ .eof) ∧
    (∀ limits text scope store,
      let loop := Program.loop limits scope
      (∃ rounds final stop,
        loop.Runs limits.parsing (ofText text) ([], store) rounds final stop) ∧
      ∀ rounds values store' stop,
        loop.Runs limits.parsing (ofText text) ([], store) rounds (values, store') stop →
        rounds ≤ Loop.tokensLeft (ofText text) ∧
        outcome (Program.interpret limits text scope) store =
          (Course.result ⟨values, stop, store'⟩, store')) ∧
    (∀ limits (session : Session),
      (∃ counts run,
        Session.RunsEach limits session.queue { session with queue := [] } counts run) ∧
      ∀ counts run,
        Session.RunsEach limits session.queue { session with queue := [] } counts run →
        List.Forall₂ (fun rounds source => rounds ≤ Loop.tokensLeft (ofText source.1))
          counts (session.queue.take counts.length) ∧
        session.run limits = run) ∧
    ∀ parsing text, Production.expr.nesting (Lexer.tokenize text).tokens.length ≤ parsing →
      (Program.expressions parsing text).2 ≠ some .recursionLimit := by
  refine ⟨?_, ?_, fun budget s s' expr h => read_takes_tokens h, ?_, ?_, ?_⟩
  · intro s tokens last hpending hlast hending
    have hend : ∃ token ∈ s.pending, token.kind = .eof := ⟨last, by simp [hpending], hlast⟩
    exact ⟨fun production => read_settles production hending hend,
      argumentList_settles hending hend⟩
  · intro s rounds budget h
    have hself := Nat.le_refl s.pending.length
    refine ⟨fun level left => ?_, fun callee => ?_, ?_, ?_⟩
    · exact operations_rounds (progresses_read budget _) level left h hself
    · exact calls_rounds (inherited_advances.read budget _) callee h hself
    · exact separated_rounds (progresses_read budget _) .rparen h hself
    · exact separated_rounds progresses_identifier .vbar h hself
  · intro limits text scope store loop
    refine ⟨loop.exists_runs limits.parsing _ _, fun rounds values store' stop h => ?_⟩
    exact ⟨h.rounds_le, Program.outcome_interpret_of_runs h⟩
  · intro limits session
    refine ⟨Session.exists_runsEach limits _ _, fun counts run h => ?_⟩
    exact ⟨h.rounds_le, h.runSources_eq⟩
  · exact fun parsing text h => Program.expressions_stop_ne_recursionLimit h

/-- An argument list that is never closed, and a text that fails in its second expression. -/
theorem reading_comes_to_an_end_unclosed :
    let tokens := (Lexer.tokenize "f(1, g(").tokens
    let s := ofText "f(1, g("
    tokens.length = 7 ∧ s.pending = tokens.dropLast ++ [Token.eof 7] ∧ s.feed.ending = none ∧
      Settles (read · .expr) 71 s ∧
      ∃ rounds values store stop, rounds ≤ 5 ∧
        (Program.loop ⟨99, 99⟩ Program.root).Runs 99 (ofText "1 f 2 3 )") ([], Program.start) rounds
          (values, store) stop ∧
        outcome (Program.interpret ⟨99, 99⟩ "1 f 2 3 )" Program.root) Program.start =
          (Course.result ⟨values, stop, store⟩, store) := by
  intro tokens s
  have hlength : tokens.length = 7 := by decide +kernel
  have hpending : s.pending = tokens.dropLast ++ [Token.eof 7] := by decide +kernel
  obtain ⟨hsettles, -, -, hinterpret, -⟩ := reading_comes_to_an_end
  have hread := (hsettles s tokens.dropLast (Token.eof 7) hpending rfl (by decide +kernel)).1 .expr
  obtain ⟨⟨rounds, ⟨values, store⟩, stop, hruns⟩, hall⟩ :=
    hinterpret ⟨99, 99⟩ "1 f 2 3 )" Program.root Program.start
  obtain ⟨hle, hout⟩ := hall rounds values store stop hruns
  have htokens : Loop.tokensLeft (ofText "1 f 2 3 )") = 5 := by decide +kernel
  refine ⟨hlength, hpending, by decide +kernel, ?_, rounds, values, store, stop, ?_, hruns, hout⟩
  · have henough : Production.expr.nesting s.pending.length = 71 := by decide +kernel
    rwa [henough] at hread
  · rwa [htokens] at hle

end LetLang
