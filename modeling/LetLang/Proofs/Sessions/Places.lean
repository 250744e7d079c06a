import LetLang.Proofs.Reports
import LetLang.Proofs.Sessions.Runs
/-!
# Where a run of a source stands

A session that works on an expression of a source has registered the place of the expression's first
token. When a run ends with a fault, that is the place of the expression that failed, the first
after those that were completed; it has none only if the source failed before its first token was
read. When a run ends without a fault, no place is registered.
-/
namespace LetLang

open LetLang.Parser

/-! ### Phrases one after the other -/

namespace Program

/-- The tokens are phrases of the expressions, each as long as it can be, before the rest. -/
inductive Phrased (parsing : Nat) : List Expr → List Token → List Token → Prop
  | nil {rest} : Phrased parsing [] rest rest
  | cons {p expr opens exprs tokens rest} (hfirst : Greedy parsing .expr p expr opens)
      (hended : Ended opens tokens) (hrest : Phrased parsing exprs tokens rest) :
      Phrased parsing (expr :: exprs) (p ++ tokens) rest

theorem Phrased.suffix {parsing : Nat} {exprs : List Expr} {tokens rest : List Token}
    (h : Phrased parsing exprs tokens rest) : rest <:+ tokens := by
  induction h with
  | nil => exact List.suffix_rfl
  | cons _ _ _ ih => exact ih.trans (List.suffix_append _ _)

end Program

/-- The first token of the expression that a text fails in, when some have been completed; none if
the text fails before its first token. -/
inductive Program.FailsAt (parsing : Nat) (text : String) (completed : Nat) : Option Token → Prop
  | atOnce (h : (Lexer.tokenize text).tokens = []) : FailsAt parsing text completed none
  | within {token rest} (hkind : token.kind ≠ .eof)
      (h : Phrased parsing ((expressions parsing text).1.take completed)
        (Lexer.tokenize text).tokens (token :: rest)) :
      FailsAt parsing text completed (some token)

/-! ### Places -/

/-- A reporter that knows one file, and perhaps the place that is being worked on. -/
def Reporter.showing (fatal : Bool) (path : String) (place : Option (String × LineNumber)) :
    Reporter :=
  { fatal, traceback := [{ path, line := place.map Prod.fst, number := place.map Prod.snd }] }

@[simp] theorem Reporter.registerLine_showing (fatal : Bool) (path : String)
    (place : Option (String × LineNumber)) (line : String) (number : LineNumber) :
    (showing fatal path place).registerLine path line (some number) =
      showing fatal path (some (line, number)) := by
  simp [showing, registerLine, register, setEntry]

@[simp] theorem Reporter.removeLine_showing (fatal : Bool) (path : String)
    (place : Option (String × LineNumber)) :
    (showing fatal path place).removeLine path = showing fatal path none := by
  simp [showing, removeLine, register, setEntry]

namespace Session

variable {limits : Limits} {session : Session} {source : String} {number : LineNumber}

/-- The line of a token, stripped, and its number, the first line of the source having `number`. -/
def placeOf (source : String) (number : LineNumber) (token : Token) : String × LineNumber :=
  let location := Text.locate source token.pos
  (Text.stripped location.line, number.plus location.index)

/-- The session's reporter knows its file only, and shows a place of it. -/
def Shows (session : Session) (fatal : Bool) (place : Option (String × LineNumber)) : Prop :=
  session.reporter = .showing fatal session.path place

variable {fatal : Bool} {place : Option (String × LineNumber)}

theorem Shows.beginAt (h : session.Shows fatal place) (source : String) (number : LineNumber)
    (token : Token) :
    (session.beginAt source number token).Shows fatal (some (placeOf source number token)) := by
  unfold Shows at h ⊢
  simp [Session.beginAt, h, placeOf]

/-- An expression that is evaluated loses its place; one that fails keeps it. -/
theorem Shows.runExpr (h : session.Shows fatal place) (limits : Limits) (expr : Expr) :
    let run := session.runExpr limits expr
    run.session.Shows fatal (if run.fault = none then none else place) := by
  intro run
  have hrun : run = session.runExpr limits expr := rfl
  clear_value run
  subst hrun
  unfold Session.runExpr
  split
  · exact h
  · split
    · exact h
    · unfold Shows at h ⊢
      simp [h]

/-! ### A run, token by token -/

/-- What a run of the tokens of a source does to any session: it evaluates expressions one after the
other, each as the one that begins with the first token of its phrase, up to the end of the source,
to a fault in place of the first token, or to a fault in the expression that begins with the next
one. -/
inductive Along (limits : Limits) (source : String) (number : LineNumber) :
    List Token → List Expr → Option Fault → (Session → Run) → Prop
  | done {tokens} : Along limits source number tokens [] none fun session =>
      { session, printed := "", fault := none }
  | unread {fault : Fault} : Along limits source number [] [] (some fault) fun session =>
      { session, printed := "", fault := some fault }
  | misread {token rest} {fault : Fault} (hkind : token.kind ≠ .eof) :
      Along limits source number (token :: rest) [] (some fault) fun session =>
        { session := session.beginAt source number token, printed := "", fault := some fault }
  | evaluated {token p tokens opens expr exprs stop} {rest : Session → Run}
      (hkind : token.kind ≠ .eof)
      (hfirst : Greedy limits.parsing .expr (token :: p) expr opens) (hended : Ended opens tokens)
      (hnext : tokens ≠ []) (hrest : Along limits source number tokens exprs stop rest) :
      Along limits source number (token :: p ++ tokens) (expr :: exprs) stop fun session =>
        let first := (session.beginAt source number token).runExpr limits expr
        match first.fault with
        | some _ => first
        | none =>
          { rest first.session with printed := first.printed ++ (rest first.session).printed }

/-- After an expression there is always another token, the end of the source if no other. -/
theorem ne_nil_of_ended {budget : Nat} {p rest : List Token} {expr : Expr} {opens : Set Kind}
    (h : Greedy budget .expr p expr opens) (hended : Ended opens rest) : rest ≠ [] := by
  rintro rfl
  have hmem := h.lparen_mem_opens (by simp)
  rw [show opens = ∅ from hended] at hmem
  exact hmem

theorem runStream_along (limits : Limits) (source : String) (number : LineNumber) {rounds : List Token}
    {stream : TokenStream} (hrounds : stream.pending.length ≤ rounds.length) :
    Along limits source number stream.pending
      (Program.readStream limits.parsing rounds stream).1
      (Program.readStream limits.parsing rounds stream).2
      (runStream limits source number rounds stream) := by
  induction rounds generalizing stream with
  | nil =>
    have hpending := List.length_eq_zero_iff.1 (Nat.le_zero.1 hrounds)
    obtain ⟨stream₁, hpeek⟩ := TokenStream.outcome_peek_of_nil hpending
    have hrun := funext (runStream.eq_def limits source number [] stream)
    dsimp only at hrun
    rw [show Reading.on TokenStream.peek stream = _ from hpeek] at hrun
    rw [Program.readStream_of_nil hpending, hpending, hrun]
    exact .unread
  | cons round rounds ih =>
    have hrun := funext (runStream.eq_def limits source number (round :: rounds) stream)
    dsimp only at hrun
    cases hpending : stream.pending with
    | nil =>
      obtain ⟨stream₁, hpeek⟩ := TokenStream.outcome_peek_of_nil hpending
      rw [show Reading.on TokenStream.peek stream = _ from hpeek] at hrun
      rw [Program.readStream_of_nil hpending, hrun]
      exact .unread
    | cons token rest =>
      have hread := Program.readStream.eq_def limits.parsing (round :: rounds) stream
      obtain ⟨stream₁, hpeek, hview⟩ := TokenStream.outcome_peek_of_cons hpending
      have hpending₁ := (TokenStream.pending_eq_of_view_eq hview).trans hpending
      dsimp only at hread
      rw [on_atEnd] at hread
      rw [show Reading.on TokenStream.peek stream = _ from hpeek] at hread hrun
      rw [hread, hrun]
      dsimp only
      by_cases hkind : token.kind = .eof
      · rw [decide_eq_true (by simp [hkind])]
        simp only [if_pos hkind]
        exact .done
      · rw [decide_eq_false (by simp [hkind])]
        simp only [if_neg hkind]
        rcases hparse : Reading.on (Parser.parseNext limits.parsing) stream₁ with
          ⟨fault | ⟨expr, more⟩, stream₂⟩
        · exact .misread hkind
        · obtain ⟨p, opens, hp, htaken, hended⟩ := parseNext_sound hparse
          obtain ⟨first, p, rfl, -⟩ := hp.begins
          rw [hpending₁, List.cons_append] at htaken
          obtain ⟨rfl, rfl⟩ := List.cons.inj htaken
          refine .evaluated hkind hp hended (ne_nil_of_ended hp hended) (ih ?_)
          rw [hpending] at hrounds
          simp only [List.length_cons, List.length_append] at hrounds
          omega

theorem evaluateAll_singleton (budget : Nat) (scope : ScopeId) (expr : Expr) (store : Store) :
    let course := evaluateAll budget scope [expr] store
    course.values.length = if course.fault = none then 1 else 0 := by
  dsimp only [evaluateAll]
  rcases outcome (evaluate budget expr scope) store with ⟨_ | _, _⟩ <;> rfl

/-- The place that a run shows when it has ended: none if it has not failed or could not begin, and
otherwise that of the first token after the phrases of the expressions that it has completed. -/
theorem Along.shows {tokens : List Token} {exprs : List Expr} {stop : Option Fault}
    {run : Session → Run} (h : Along limits source number tokens exprs stop run) :
    (∀ expr ∈ exprs, (expr.display? 0).isSome) → ∀ session : Session, session.Shows fatal none →
      let course := (evaluateAll limits.evaluation session.root exprs session.store).upTo stop
      (course.fault = none ∨ tokens = []) ∧ (run session).session.Shows fatal none ∨
        ∃ token rest, course.fault.isSome ∧ token.kind ≠ .eof ∧
          Program.Phrased limits.parsing (exprs.take course.values.length) tokens (token :: rest) ∧
          (run session).session.Shows fatal (some (placeOf source number token)) := by
  induction h with
  | done => exact fun _ session hshows => .inl ⟨.inl rfl, hshows⟩
  | unread => exact fun _ session hshows => .inl ⟨.inr rfl, hshows⟩
  | @misread token rest fault hkind =>
    exact fun _ session hshows =>
      .inr ⟨token, rest, rfl, hkind, .nil, hshows.beginAt source number token⟩
  | @evaluated token p tokens opens expr exprs stop rest hkind hfirst hended hnext hrest ih =>
    intro hexprs session hshows
    rw [List.forall_mem_cons] at hexprs
    let begun := session.beginAt source number token
    let first := begun.runExpr limits expr
    have hbegun : begun.Shows fatal (some (placeOf source number token)) :=
      hshows.beginAt source number token
    have hfollows : begun.Follows first
        (evaluateAll limits.evaluation begun.root [expr] begun.store) :=
      runExpr_follows hexprs.1
    have hplace : first.session.Shows fatal
        (if first.fault = none then none else some (placeOf source number token)) :=
      hbegun.runExpr limits expr
    have hlength := evaluateAll_singleton limits.evaluation session.root expr session.store
    have hfault : first.fault =
        (evaluateAll limits.evaluation session.root [expr] session.store).fault :=
      hfollows.fault_eq
    rw [upTo_evaluateAll_cons]
    dsimp only at hlength ⊢
    rw [← hfault] at hlength ⊢
    cases hfailed : first.fault with
    | some fault =>
      rw [hfailed, if_neg (by simp)] at hlength hplace
      have hnone := List.length_eq_zero_iff.1 hlength
      refine .inr ⟨token, p ++ tokens, ?_, hkind, ?_, ?_⟩
      · rw [← hfault, hfailed]
        rfl
      · rw [hnone]
        exact .nil
      · exact hplace
    | none =>
      rw [hfailed, if_pos rfl] at hlength hplace
      have hothers := ih hexprs.2 first.session hplace
      rw [hfollows.root_eq, hfollows.store_eq] at hothers
      rcases hothers with ⟨hfine | hnil, hshown⟩ | ⟨other, more, hfails, hother, hphrased, hshown⟩
      · exact .inl ⟨.inl hfine, hshown⟩
      · exact absurd hnil hnext
      · refine .inr ⟨other, more, hfails, hother, ?_, hshown⟩
        rw [Course.after, List.length_append, hlength, Nat.add_comm, List.take_succ_cons]
        exact .cons hfirst hended hphrased

/-! ### A source -/

/-- A session stands where a course has come to: at the first token of the expression that failed,
or nowhere if none did. -/
structure Stands (session : Session) (fatal : Bool) (parsing : Nat) (source : String)
    (number : LineNumber) (course : Course) : Prop where
  idle : course.fault = none → session.Shows fatal none
  failed : course.fault ≠ none → ∃ token, Program.FailsAt parsing source course.values.length token ∧
    session.Shows fatal (token.map (placeOf source number))

theorem Stands.exists_shows {parsing : Nat} {course : Course}
    (h : session.Stands fatal parsing source number course) :
    ∃ place, session.Shows fatal place := by
  by_cases hfault : course.fault = none
  · exact ⟨none, h.idle hfault⟩
  · obtain ⟨token, -, hshows⟩ := h.failed hfault
    exact ⟨_, hshows⟩

/-- Where lines are counted, the place at which a session stands can be shown. -/
theorem Stands.canReport {parsing : Nat} {course : Course}
    (h : session.Stands fatal parsing source number course) (hnumber : number.Counted) :
    session.reporter.canReport = true := by
  by_cases hfault : course.fault = none
  · have hidle : session.reporter = .showing fatal session.path none := h.idle hfault
    rw [hidle]
    exact Reporter.canReport_of_counted (by simp)
  · obtain ⟨token, -, hshows⟩ := h.failed hfault
    have hfailed : session.reporter =
        .showing fatal session.path (token.map (placeOf source number)) := hshows
    rw [hfailed]
    apply Reporter.canReport_of_counted
    cases token with
    | none => simp
    | some token => simpa [placeOf] using hnumber.plus _

theorem Shows.runSource (h : session.Shows fatal none) (limits : Limits) (source : String)
    (number : LineNumber) :
    let stream := TokenStream.ofText source
    (runStream limits source number stream.pending stream session).session.Stands fatal
      limits.parsing source number
      (Program.course limits session.root source session.store) := by
  intro stream
  have halong := runStream_along limits source number (Nat.le_refl stream.pending.length)
  have hexprs : ∀ expr ∈ (Program.expressions limits.parsing source).1,
      (expr.display? 0).isSome :=
    fun _ hexpr => Program.isSome_display?_of_mem hexpr 0
  rcases halong.shows hexprs session h with
    ⟨hfine | hnil, hshown⟩ | ⟨token, rest, hfails, hkind, hphrased, hshown⟩
  · exact ⟨fun _ => hshown, fun hfault => absurd hfine hfault⟩
  · exact ⟨fun _ => hshown, fun _ => ⟨none, .atOnce hnil, hshown⟩⟩
  · refine ⟨fun hfine => ?_, fun _ => ⟨some token, .within hkind hphrased, hshown⟩⟩
    have hsome : (Program.course limits session.root source session.store).fault.isSome := hfails
    rw [hfine] at hsome
    cases hsome

end Session

/-- The course of a source that is given to a session, which passes over a blank one. -/
def Program.inputCourse (limits : Limits) (root : ScopeId) (source : String) (store : Store) :
    Course :=
  if Text.allBlank source then { values := [], fault := none, store }
  else course limits root source store

/-- Where a session stands that has run a source. -/
theorem Session.Shows.run_add {session : Session} {fatal : Bool} (h : session.Shows fatal none)
    (hqueue : session.queue = []) (limits : Limits) (source : String) (number : LineNumber) :
    ((session.add source number).run limits).session.Stands fatal limits.parsing source number
      (Program.inputCourse limits session.root source session.store) := by
  rw [Session.add, Program.inputCourse]
  by_cases hblank : Text.allBlank source = true
  · rw [if_pos hblank, if_pos hblank, Session.run, hqueue]
    exact ⟨fun _ => h, fun hfault => absurd rfl hfault⟩
  · rw [if_neg hblank, if_neg hblank, Session.run, hqueue, List.nil_append]
    have hstands := @Shows.runSource { session with queue := [] } fatal h limits source number
    dsimp only [runSources]
    split
    · exact hstands
    · exact hstands

end LetLang
