import LetLang.Proofs.Legible
import LetLang.Proofs.Lexing.Broken
import LetLang.Proofs.Parsing.Faults
import LetLang.Proofs.Reports
import LetLang.Proofs.Sessions.Courses
/-!
# Why a text stops

A text that is run in a store which earlier texts have left is stopped by nothing but a fault of its
own: a character or a token that is out of place, nesting that is too deep, a complaint of one of its
evaluations, or a number that has too many digits where it is read, or where it should be written
into a complaint.
-/
namespace LetLang

open Text

/-! ### Faults of reading -/

theorem fed_ofText (text : String) :
    Fed text (Lexer.tokenize text).ending (TokenStream.ofText text) := by
  refine ⟨(Lexer.tokenize text).tokens, rfl, ?_⟩
  intro hending
  rcases Lexer.tokensFrom_shape text 0 text.toList with
    ⟨tokens, last, htokens, hlast, -⟩ | ⟨hstopped, -⟩
  · rw [show Lexer.tokenize text = _ from htokens]
    exact ⟨last, by simp, hlast⟩
  · exact absurd hending hstopped

namespace Program

/-- A stream that is fed stops being read by a fault of reading only. -/
theorem Reads.readingFault {parsing : Nat} {s : TokenStream} {exprs : List Expr}
    {stop : Option Fault} (h : Reads parsing s exprs stop) {source : String}
    {ending : Option Fault} (hfed : Fed source ending s) {fault : Fault}
    (hstop : stop = some fault) : ReadingFault source ending fault := by
  induction h with
  | atEnd => cases hstop
  | noToken h =>
    cases hstop
    exact (sated_nextIs _).fault hfed h
  | noExpr h hparse =>
    cases hstop
    exact (Parser.sated_parseNext parsing).fault ((sated_nextIs _).fed hfed h) hparse
  | cons h hparse _ ih =>
    exact ih ((Parser.sated_parseNext parsing).fed ((sated_nextIs _).fed hfed h) hparse) hstop

theorem readingFault_of_expressions {parsing : Nat} {text : String} {fault : Fault}
    (h : (expressions parsing text).2 = some fault) :
    ReadingFault text (Lexer.tokenize text).ending fault :=
  (reads_iff.2 rfl).readingFault (fed_ofText text) h

end Program

/-! ### Faults of evaluation -/

/-- If expressions fail, one of them does, after those before it. -/
theorem evaluateAll_fault {budget : Nat} {scope : ScopeId} {exprs : List Expr} {store : Store}
    {fault : Fault} (h : (evaluateAll budget scope exprs store).fault = some fault) :
    ∃ before expr after, exprs = before ++ expr :: after ∧
      (evaluateAll budget scope before store).fault = none ∧
      Visit.result ⟨budget, expr, scope, (evaluateAll budget scope before store).store⟩ =
        .error fault := by
  induction exprs generalizing store with
  | nil => cases h
  | cons expr exprs ih =>
    rw [evaluateAll] at h
    rcases hvalue : outcome (evaluate budget expr scope) store with ⟨found | value, store₁⟩
    · rw [hvalue] at h
      cases h
      exact ⟨[], expr, exprs, rfl, rfl, congrArg Prod.fst hvalue⟩
    · rw [hvalue] at h
      obtain ⟨before, other, after, rfl, hnone, hfails⟩ := ih h
      refine ⟨expr :: before, other, after, rfl, ?_⟩
      rw [evaluateAll, hvalue]
      exact ⟨hnone, hfails⟩

/-- Evaluating expressions that can be written keeps the store legible, and gives legible values. -/
theorem legible_evaluateAll (budget : Nat) (scope : ScopeId) {exprs : List Expr}
    (hexprs : ∀ expr ∈ exprs, expr.Writable) {store : Store} (hstore : store.Legible) :
    (evaluateAll budget scope exprs store).store.Legible ∧
      ∀ value ∈ (evaluateAll budget scope exprs store).values, value.Legible := by
  induction exprs generalizing store with
  | nil => exact ⟨hstore, by simp [evaluateAll]⟩
  | cons expr exprs ih =>
    rw [List.forall_mem_cons] at hexprs
    obtain ⟨hafter, hgives⟩ := legible_of_outcome budget scope hexprs.1 hstore
    rw [evaluateAll]
    rcases hvalue : outcome (evaluate budget expr scope) store with ⟨found | value, store₁⟩
    · rw [hvalue] at hafter
      exact ⟨hafter, by simp⟩
    · rw [hvalue] at hafter
      obtain ⟨hrest, hvalues⟩ := ih hexprs.2 hafter
      exact ⟨hrest, List.forall_mem_cons.2 ⟨hgives value store₁ hvalue, hvalues⟩⟩

namespace Program

variable {limits : Limits} {root : ScopeId} {text : String} {store : Store} {fault : Fault}

theorem legible_course (limits : Limits) (root : ScopeId) (text : String) (h : store.Legible) :
    (course limits root text store).store.Legible ∧
      ∀ value ∈ (course limits root text store).values, value.Legible :=
  legible_evaluateAll limits.evaluation root (fun _ => writable_of_mem_expressions) h

/-- An evaluation that is made while the expressions of a text are evaluated in order. -/
def Evaluates (limits : Limits) (root : ScopeId) (text : String) (store : Store) (visit : Visit) :
    Prop :=
  ∃ before expr after, (expressions limits.parsing text).1 = before ++ expr :: after ∧
    (evaluateAll limits.evaluation root before store).fault = none ∧
    Visit.Reaches
      ⟨limits.evaluation, expr, root, (evaluateAll limits.evaluation root before store).store⟩ visit

theorem Evaluates.legible {visit : Visit} (h : Evaluates limits root text store visit)
    (hstore : store.Legible) : visit.Legible := by
  obtain ⟨before, expr, after, hexprs, -, hreaches⟩ := h
  have hwritable : ∀ other ∈ before ++ expr :: after, other.Writable := by
    rw [← hexprs]
    exact fun _ => writable_of_mem_expressions
  rw [List.forall_mem_append, List.forall_mem_cons] at hwritable
  exact hreaches.legible ⟨hwritable.2.1, (legible_evaluateAll _ root hwritable.1 hstore).1⟩

/-! ### Causes -/

/-- What can stop a text that is run in a store, each with its cause. -/
inductive Stops (limits : Limits) (root : ScopeId) (text : String) (store : Store) : Fault → Prop
  | character {tokens pos c}
      (hbroken : Lexer.Broken text 0 text.toList tokens
        (.language (.unexpectedCharacter text pos c)))
      (h : text.toList[pos]? = some c) :
      Stops limits root text store (.language (.unexpectedCharacter text pos c))
  | token {kinds : List Kind} {found : Token} (h : found.kind ∉ kinds) :
      Stops limits root text store (.language (.unexpectedToken kinds found text))
  | nesting : Stops limits root text store .recursionLimit
  | complaint {visit complaint error} (hvisit : Evaluates limits root text store visit)
      (hraises : visit.Raises complaint) (hlegible : complaint.Legible)
      (herror : complaint.error? = some error) :
      Stops limits root text store (.language error)
  | numeral {tokens digits}
      (hbroken : Lexer.Broken text 0 text.toList tokens (.numeralTooLong digits))
      (hlong : 4300 < digits) : Stops limits root text store (.numeralTooLong digits)
  | number {visit complaint n} (hvisit : Evaluates limits root text store visit)
      (hraises : visit.Raises complaint) (hmem : .int n ∈ complaint.values)
      (hlong : 4300 < (Nat.digits 10 n.natAbs).length) :
      Stops limits root text store .numberTooLong

/-- A text that cannot be read on has a cause in itself. -/
theorem stops_of_readingFault (h : ReadingFault text (Lexer.tokenize text).ending fault) :
    Stops limits root text store fault := by
  cases h with
  | unexpected h => exact .token h
  | nested => exact .nesting
  | ended h =>
    have hbroken := Lexer.broken_tokensFrom text 0 text.toList h
    rcases hbroken.fault_eq with ⟨place, c, rfl⟩ | ⟨digits, rfl, hlong⟩
    · exact .character hbroken (@Lexer.Broken.getElem?_eq _ _ [] _ _ _ _ _ hbroken rfl).2
    · exact .numeral hbroken hlong

theorem stops_of_fails {visit : Visit} (hvisit : Evaluates limits root text store visit)
    (hstore : store.Legible) (h : visit.Fails fault) : Stops limits root text store fault := by
  cases h with
  | spent => exact .nesting
  | @raises _ complaint hraises =>
    have hlegible := hraises.legible (hvisit.legible hstore)
    rw [Complaint.fault]
    cases herror : complaint.error? with
    | some error => exact .complaint hvisit hraises hlegible herror
    | none =>
      obtain ⟨n, hmem, hlong⟩ := hlegible.error?_eq_none_iff.1 herror
      exact .number hvisit hraises hmem hlong

theorem course_fault_of_interpret
    (h : (outcome (interpret limits text root) store).1 = .error fault) :
    (course limits root text store).fault = some fault := by
  rw [outcome_interpret, Course.result] at h
  cases hfault : (course limits root text store).fault with
  | none =>
    rw [hfault] at h
    cases h
  | some found =>
    rw [hfault] at h
    exact congrArg some (Except.error.inj h)

/-- In a legible store, the fault of a text has a cause. -/
theorem stops_of_course (hstore : store.Legible)
    (h : (course limits root text store).fault = some fault) :
    Stops limits root text store fault := by
  rcases Option.or_eq_some_iff.1 h with heval | ⟨-, hread⟩
  · obtain ⟨before, expr, after, hexprs, hnone, hresult⟩ := evaluateAll_fault heval
    obtain ⟨reached, hreaches, hfails⟩ := Visit.result_eq_error_iff.1 hresult
    exact stops_of_fails ⟨before, expr, after, hexprs, hnone, hreaches⟩ hstore hfails
  · exact stops_of_readingFault (readingFault_of_expressions hread)

end Program
end LetLang
