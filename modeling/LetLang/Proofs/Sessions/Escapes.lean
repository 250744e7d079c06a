import LetLang.Proofs.Escapes
/-!
# Sessions without escape characters

A session whose sources and path have no escape characters comes to no others: the trees that it
prints have none, nor do its results, the lines that it works on, and the faults that it ends with.
-/
namespace LetLang

open Text

/-- No escape character is in what the session holds, and none comes from it: its values hold only
named expressions. -/
structure Session.EscapeFree (session : Session) : Prop where
  path : Text.EscapeFree session.path
  store : session.store.Inside Expr.Named
  results : ∀ value ∈ session.results, value.Inside Expr.Named
  queue : ∀ source ∈ session.queue, Text.EscapeFree source.1
  reporter : session.reporter.EscapeFree

structure Session.Run.EscapeFree (run : Run) : Prop where
  session : run.session.EscapeFree
  printed : Text.EscapeFree run.printed
  fault : ∀ fault ∈ run.fault, fault.EscapeFree

namespace Session

variable {session : Session}

/-! ### One expression -/

theorem EscapeFree.beginAt (h : session.EscapeFree) {source : String}
    (hsource : Text.EscapeFree source) (number : LineNumber) (token : Token) :
    (session.beginAt source number token).EscapeFree := by
  have hline : Text.EscapeFree (stripped (locate source token.pos).line) :=
    escapeFree_ofList.2 fun hmem => hsource (mem_of_mem_locate (mem_of_mem_strip hmem))
  exact { h with reporter := h.reporter.registerLine h.path hline _ }

theorem EscapeFree.runExpr (h : session.EscapeFree) (limits : Limits) {expr : Expr}
    (hexpr : expr.Named) :
    (session.runExpr limits expr).EscapeFree := by
  have hvisit : Visit.Inside Expr.Named ⟨limits.evaluation, expr, session.root, session.store⟩ :=
    ⟨hexpr, h.store⟩
  have hkeeps := evaluate_keeps Expr.hereditary_named limits.evaluation hexpr session.root
  have hafter := hkeeps.store h.store
  rw [Session.runExpr]
  split
  · exact ⟨h, escapeFree_empty, by simpa using Fault.escapeFree_numberTooLong⟩
  · next printed hprinted =>
    have hfree : Text.EscapeFree printed := by
      split at hprinted
      · obtain ⟨tree, htree, rfl⟩ := Option.map_eq_some_iff.1 hprinted
        exact escapeFree_append.2 ⟨hexpr.escapeFree_display htree, by decide⟩
      · cases hprinted
        decide
    split
    · next fault store heq =>
      have hfault := escapeFree_of_result hvisit (congrArg Prod.fst heq)
      rw [show outcome _ session.store = (.error fault, store) from heq] at hafter
      exact ⟨{ h with store := hafter }, hfree, by simpa using hfault⟩
    · next value store heq =>
      have hvalue := hkeeps.value h.store heq
      rw [show outcome _ session.store = (.ok value, store) from heq] at hafter
      refine ⟨?_, hfree, by simp⟩
      exact
        { h with
          store := hafter
          results := List.forall_mem_append.2 ⟨h.results, List.forall_mem_singleton.2 hvalue⟩
          reporter := h.reporter.removeLine h.path }

/-- A run that goes on, unless it has failed. -/
theorem Run.EscapeFree.andThen {first rest : Run} (hfirst : first.EscapeFree)
    (hrest : rest.EscapeFree) :
    Run.EscapeFree
      (match first.fault with
      | some _ => first
      | none => { rest with printed := first.printed ++ rest.printed }) := by
  cases first.fault with
  | some fault => exact hfirst
  | none => exact { hrest with printed := escapeFree_append.2 ⟨hfirst.printed, hrest.printed⟩ }

/-! ### Sources -/

theorem Through.escapeFree {limits : Limits} {source : String} (hsource : Text.EscapeFree source)
    {number : LineNumber} {exprs : List Expr} {stop : Option Fault} {run : Session → Run}
    (h : Through limits source number exprs stop run) (hexprs : ∀ expr ∈ exprs, expr.Named)
    (hstop : ∀ fault ∈ stop, fault.EscapeFree) (hsession : session.EscapeFree) :
    (run session).EscapeFree := by
  induction h generalizing session with
  | done => exact ⟨hsession, escapeFree_empty, hstop⟩
  | misread token => exact ⟨hsession.beginAt hsource number token, escapeFree_empty, hstop⟩
  | evaluated token _ ih =>
    rw [List.forall_mem_cons] at hexprs
    have hfirst := (hsession.beginAt hsource number token).runExpr limits hexprs.1
    exact hfirst.andThen (ih hexprs.2 hstop hfirst.session)

theorem EscapeFree.runSource (h : session.EscapeFree) (limits : Limits) {source : String}
    (hsource : Text.EscapeFree source) (number : LineNumber) :
    (runStream limits source number (TokenStream.ofText source).pending
      (TokenStream.ofText source) session).EscapeFree :=
  (runStream_through limits source number _ _).escapeFree hsource
    (fun _ hexpr => Program.named_of_mem_expressions hexpr)
    (fun _ hfault => (Program.refusal_of_expressions hfault).escapeFree hsource) h

theorem EscapeFree.runSources (h : session.EscapeFree) (limits : Limits)
    {sources : List (String × LineNumber)} (hsources : ∀ source ∈ sources, Text.EscapeFree source.1) :
    (runSources limits sources session).EscapeFree := by
  induction sources generalizing session with
  | nil => exact ⟨h, escapeFree_empty, by simp [Session.runSources]⟩
  | cons source sources ih =>
    rw [List.forall_mem_cons] at hsources
    have hfirst := h.runSource limits hsources.1 source.2
    exact hfirst.andThen (ih hfirst.session hsources.2)

theorem EscapeFree.run (h : session.EscapeFree) (limits : Limits) :
    (session.run limits).EscapeFree := by
  have hempty : Session.EscapeFree { session with queue := [] } :=
    { h with queue := List.forall_mem_nil _ }
  exact hempty.runSources limits h.queue

theorem EscapeFree.add (h : session.EscapeFree) {source : String}
    (hsource : Text.EscapeFree source) (number : LineNumber) :
    (session.add source number).EscapeFree := by
  rw [Session.add]
  split
  · exact h
  · exact
      { h with
        queue := List.forall_mem_append.2 ⟨h.queue, List.forall_mem_singleton.2 hsource⟩ }

/-! ### Results -/

theorem EscapeFree.printResults_go {values : List Value} (h : session.EscapeFree)
    (hvalues : ∀ value ∈ values, value.Inside Expr.Named) :
    (printResults.go values session).EscapeFree := by
  induction values with
  | nil =>
    exact ⟨{ h with results := List.forall_mem_nil _ }, escapeFree_empty, by simp [printResults.go]⟩
  | cons value values ih =>
    rw [List.forall_mem_cons] at hvalues
    rw [printResults.go]
    split
    · exact ⟨{ h with results := hvalues.2 }, escapeFree_empty,
        by simpa using Fault.escapeFree_numberTooLong⟩
    · next text htext =>
      have hrest := ih hvalues.2
      have hline : Text.EscapeFree (text ++ "\n") :=
        escapeFree_append.2 ⟨hvalues.1.escapeFree_text htext, by decide⟩
      exact { hrest with printed := escapeFree_append.2 ⟨hline, hrest.printed⟩ }

theorem EscapeFree.printResults (h : session.EscapeFree) : session.printResults.EscapeFree :=
  h.printResults_go h.results

end Session
end LetLang
