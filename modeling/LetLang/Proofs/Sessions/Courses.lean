import LetLang.Proofs.Texts.Seam
/-!
# Courses of evaluation

What running a text comes to, in two phases: its expressions are read first, up to the end or the
first fault, and then evaluated, up to the first fault of evaluation. Only if there is none does it
matter what stopped the reading. Texts that are run one after the other stop at the first that
fails.
-/
namespace LetLang

open LetLang.Parser

/-! ### Reading without evaluating -/

namespace Program

/-- The expressions that a stream holds, up to its end, to a fault in place of its next token, or
to a fault in place of its next expression. -/
inductive Reads (parsing : Nat) : TokenStream → List Expr → Option Fault → Prop
  | atEnd {s s₁} (h : outcome TokenStream.atEnd s = (.ok true, s₁)) : Reads parsing s [] none
  | noToken {s s₁ fault} (h : outcome TokenStream.atEnd s = (.error fault, s₁)) :
      Reads parsing s [] (some fault)
  | noExpr {s s₁ s₂ fault} (h : outcome TokenStream.atEnd s = (.ok false, s₁))
      (hparse : outcome (parseNext parsing) s₁ = (.error fault, s₂)) :
      Reads parsing s [] (some fault)
  | cons {s s₁ s₂ expr more exprs stop} (h : outcome TokenStream.atEnd s = (.ok false, s₁))
      (hparse : outcome (parseNext parsing) s₁ = (.ok (expr, more), s₂))
      (hrest : Reads parsing s₂ exprs stop) : Reads parsing s (expr :: exprs) stop

variable {parsing : Nat} {s : TokenStream}

/-- Each expression takes a token at least. -/
theorem length_pending_lt {s₁ s₂ : TokenStream} {expr : Expr} {more : Bool}
    (h : outcome TokenStream.atEnd s = (.ok false, s₁))
    (hparse : outcome (parseNext parsing) s₁ = (.ok (expr, more), s₂)) :
    s₂.pending.length < s.pending.length := by
  obtain ⟨token, rest, hpending, hpending₁, -⟩ := TokenStream.pending_of_nextIs h
  obtain ⟨p, opens, hp, htaken, -⟩ := parseNext_sound hparse
  obtain ⟨first, p, rfl, -⟩ := hp.begins
  rw [hpending, ← hpending₁, htaken, List.length_append, List.length_cons]
  omega

theorem exists_reads (parsing : Nat) (s : TokenStream) :
    ∃ exprs stop, Reads parsing s exprs stop := by
  induction hlength : s.pending.length using Nat.strong_induction_on generalizing s with
  | _ n ih =>
    subst hlength
    rcases hend : outcome TokenStream.atEnd s with ⟨fault | _ | _, s₁⟩
    · exact ⟨[], some fault, .noToken hend⟩
    · rcases hparse : outcome (parseNext parsing) s₁ with ⟨fault | ⟨expr, more⟩, s₂⟩
      · exact ⟨[], some fault, .noExpr hend hparse⟩
      · obtain ⟨exprs, stop, hrest⟩ := ih _ (length_pending_lt hend hparse) s₂ rfl
        exact ⟨expr :: exprs, stop, .cons hend hparse hrest⟩
    · exact ⟨[], none, .atEnd hend⟩

/-- There are rounds left where a token is left. -/
theorem exists_round {s₁ : TokenStream} {rounds : List Token}
    (h : outcome TokenStream.atEnd s = (.ok false, s₁))
    (hrounds : s.pending.length ≤ rounds.length) : ∃ round others, rounds = round :: others := by
  obtain ⟨token, rest, hpending, -⟩ := TokenStream.pending_of_nextIs h
  rw [hpending, List.length_cons] at hrounds
  exact List.exists_cons_of_length_pos (by omega)

theorem Reads.readStream_eq {exprs : List Expr} {stop : Option Fault}
    (h : Reads parsing s exprs stop) {rounds : List Token}
    (hrounds : s.pending.length ≤ rounds.length) :
    readStream parsing rounds s = (exprs, stop) := by
  rw [readStream.eq_def]
  dsimp only
  induction h generalizing rounds with
  | @atEnd s s₁ h =>
    rw [show Reading.on TokenStream.atEnd s = (.ok true, s₁) from h]
  | @noToken s s₁ fault h =>
    rw [show Reading.on TokenStream.atEnd s = (.error fault, s₁) from h]
  | @noExpr s s₁ s₂ fault h hparse =>
    obtain ⟨round, others, rfl⟩ := exists_round h hrounds
    rw [show Reading.on TokenStream.atEnd s = (.ok false, s₁) from h]
    dsimp only
    rw [show Reading.on (parseNext parsing) s₁ = (.error fault, s₂) from hparse]
  | @cons s s₁ s₂ expr more exprs stop h hparse hrest ih =>
    obtain ⟨round, others, rfl⟩ := exists_round h hrounds
    have hlength := length_pending_lt h hparse
    rw [List.length_cons] at hrounds
    have hothers := @ih others (by omega)
    rw [show Reading.on TokenStream.atEnd s = (.ok false, s₁) from h]
    dsimp only
    rw [show Reading.on (parseNext parsing) s₁ = (.ok (expr, more), s₂) from hparse]
    dsimp only
    rw [readStream.eq_def]
    dsimp only
    rw [hothers]

/-- The expressions of a text are those that can be read from it, however many there are. -/
theorem reads_iff {text : String} {exprs : List Expr} {stop : Option Fault} :
    Reads parsing (TokenStream.ofText text) exprs stop ↔
      expressions parsing text = (exprs, stop) := by
  constructor
  · exact fun h => h.readStream_eq (Nat.le_refl _)
  · intro h
    obtain ⟨exprs', stop', hreads⟩ := exists_reads parsing (TokenStream.ofText text)
    have hsame := hreads.readStream_eq (Nat.le_refl _)
    obtain ⟨rfl, rfl⟩ := Prod.mk.inj (h.symm.trans hsame)
    exact hreads

end Program

/-! ### Evaluating what was read -/

/-- What was evaluated up to the end or to a fault, and the store after it. -/
structure Course where
  values : List Value
  fault : Option Fault
  store : Store

namespace Course

/-- The outcome of a computation that gives the values of the course. -/
def result (course : Course) : Except Fault (List Value) :=
  match course.fault with
  | none => .ok course.values
  | some fault => .error fault

/-- The course after one that gave some values. -/
def after (values : List Value) (course : Course) : Course :=
  { course with values := values ++ course.values }

/-- The course, with a fault at its end that counts if it met none before. -/
def upTo (stop : Option Fault) (course : Course) : Course :=
  { course with fault := course.fault.or stop }

end Course

/-- Evaluates expressions in order, up to the first that fails. -/
def evaluateAll (budget : Nat) (scope : ScopeId) : List Expr → Store → Course
  | [], store => { values := [], fault := none, store }
  | expr :: exprs, store =>
    match outcome (evaluate budget expr scope) store with
    | (.error fault, store) => { values := [], fault := some fault, store }
    | (.ok value, store) => (evaluateAll budget scope exprs store).after [value]

namespace Program

/-- The course of a text: its expressions are evaluated when all of them have been read. -/
def course (limits : Limits) (scope : ScopeId) (text : String) (store : Store) : Course :=
  let (exprs, stop) := expressions limits.parsing text
  (evaluateAll limits.evaluation scope exprs store).upTo stop

/-- The course of several texts, up to the first that fails. -/
def courses (limits : Limits) (scope : ScopeId) : List String → Store → Course
  | [], store => { values := [], fault := none, store }
  | text :: texts, store =>
    let first := course limits scope text store
    match first.fault with
    | some _ => first
    | none => (courses limits scope texts first.store).after first.values

theorem outcome_inOrder_eq (budget : Nat) (scope : ScopeId) (stop : Option Fault)
    (exprs : List Expr) (store : Store) :
    outcome (inOrder (evaluate budget · scope) stop exprs) store =
      (((evaluateAll budget scope exprs store).upTo stop).result,
        (evaluateAll budget scope exprs store).store) := by
  induction exprs generalizing store with
  | nil => cases stop <;> rfl
  | cons expr exprs ih =>
    rw [inOrder, evaluateAll]
    rcases hvalue : outcome (evaluate budget expr scope) store with ⟨fault | value, store₁⟩
    · rw [outcome_bind_of_error hvalue]
      rfl
    · rw [outcome_bind_of_ok hvalue, outcome_bind, ih store₁]
      dsimp only [Course.result, Course.upTo, Course.after]
      rcases (evaluateAll budget scope exprs store₁).fault.or stop with _ | _ <;> rfl

/-- Interpreting a text, which reads and evaluates by turns, comes to the same as its course. -/
theorem outcome_interpret (limits : Limits) (text : String) (scope : ScopeId) (store : Store) :
    outcome (interpret limits text scope) store =
      ((course limits scope text store).result, (course limits scope text store).store) := by
  rw [interpret_eq_inOrder, outcome_inOrder_eq]
  rfl

end Program
end LetLang
