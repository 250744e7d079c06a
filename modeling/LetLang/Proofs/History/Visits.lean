import LetLang.Proofs.History
import LetLang.Proofs.Origins
import LetLang.Proofs.Trees
/-!
# Evaluations within histories

The evaluations that are made in the course of another one happen within its history: each of them
begins in the store that some of the changes have led to, and its own changes come next. The history
of a session is made up of those of the expressions that it evaluates.
-/
namespace LetLang

theorem followed_of_ok {α : Type} {x : Evaluating α} {store later : Store} {a : α}
    (h : outcome x store = (.ok a, later)) (next : α → Store → List Change) :
    followed x store next = next a later := by
  rw [followed, h]

theorem store_eq_after_of_outcome {budget : Nat} {expr : Expr} {scope : ScopeId}
    {store later : Store} {result : Except Fault Value}
    (h : outcome (evaluate budget expr scope) store = (result, later)) :
    later = store.after (changes budget expr scope store) := by
  rw [← evaluate_store_eq_after, h]

namespace Visit

/-- The changes that an evaluation makes. -/
def changes (visit : Visit) : List Change :=
  LetLang.changes visit.budget visit.expr visit.scope visit.store

/-- An evaluation calls a closure that has captured the given scope: it makes the evaluation of the
body, in the scope that is opened for the call. -/
inductive Calls : Visit → ScopeId → Visit → Prop
  | intro {budget callee argument scope store param body captured store' value store''}
      (hcallee : outcome (evaluate budget callee scope) store =
        (.ok (.closure param body captured), store'))
      (hargument : outcome (evaluate budget argument scope) store' = (.ok value, store'')) :
      Calls ⟨budget + 1, .apply callee argument, scope, store⟩ captured
        ⟨budget, body, (store''.child captured (param.map (·, value)).toList).1,
          (store''.child captured (param.map (·, value)).toList).2⟩

/-- Whatever an evaluation makes is about a part of its expression in its own scope, or it is the
body of a closure that is called. -/
theorem Makes.part_or_calls {visit part : Visit} (h : visit.Makes part) :
    part.scope = visit.scope ∧ part.expr ∈ visit.expr.children ∨
      ∃ captured, visit.Calls captured part := by
  cases h with
  | called hcallee hargument => exact .inr ⟨_, .intro hcallee hargument⟩
  | _ => exact .inl ⟨rfl, by simp [Expr.children]⟩

theorem Calls.makes {visit part : Visit} {captured : ScopeId} (h : visit.Calls captured part) :
    visit.Makes part := by
  cases h with
  | intro hcallee hargument => exact .called hcallee hargument

/-- The history of an evaluation has the histories of those that it makes within it. -/
def Contains (visit part : Visit) : Prop :=
  ∃ early, part.store = visit.store.after early ∧ early ++ part.changes <+: visit.changes

theorem Contains.refl (visit : Visit) : visit.Contains visit :=
  ⟨[], rfl, List.prefix_refl _⟩

theorem Contains.trans {visit part reached : Visit} (h : visit.Contains part)
    (h' : part.Contains reached) : visit.Contains reached := by
  obtain ⟨early, hstore, hchanges⟩ := h
  obtain ⟨early', hstore', hchanges'⟩ := h'
  refine ⟨early ++ early', by rw [hstore', hstore, Store.after_append], ?_⟩
  rw [List.append_assoc]
  exact ((List.prefix_append_right_inj early).2 hchanges').trans hchanges

theorem Makes.contains {visit part : Visit} (h : visit.Makes part) : visit.Contains part := by
  cases h with
  | left | defined | bound | cond | condElse | callee => exact ⟨[], rfl, List.prefix_append _ _⟩
  | operand => exact ⟨[], rfl, List.prefix_refl _⟩
  | right hleft =>
    refine ⟨_, store_eq_after_of_outcome hleft, ?_⟩
    rw [changes, changes, LetLang.changes, followed_of_ok hleft]
  | @body budget name bound body scope store value store' hbound =>
    have hstore := store_eq_after_of_outcome hbound
    refine ⟨LetLang.changes budget bound scope store ++ [.bind scope name value], ?_, ?_⟩
    · rw [Store.after_append, ← hstore]
      rfl
    · rw [changes, changes, LetLang.changes, followed_of_ok hbound, List.append_assoc]
      exact List.prefix_refl _
  | yes hcond | yesElse hcond | no hcond =>
    refine ⟨_, store_eq_after_of_outcome hcond, ?_⟩
    rw [changes, changes, LetLang.changes, followed_of_ok hcond]
  | argument hcallee =>
    refine ⟨_, store_eq_after_of_outcome hcallee, ?_⟩
    rw [changes, changes, LetLang.changes, followed_of_ok hcallee]
    exact (List.prefix_append_right_inj _).2 (List.prefix_append _ _)
  | @called budget callee argument scope store param body captured store' value store''
      hcallee hargument =>
    have hstore := store_eq_after_of_outcome hcallee
    have hstore' := store_eq_after_of_outcome hargument
    refine ⟨LetLang.changes budget callee scope store ++
      (LetLang.changes budget argument scope store' ++ [.enter captured (param.map (·, value))]),
      ?_, ?_⟩
    · rw [Store.after_append, Store.after_append, ← hstore, ← hstore']
      rfl
    · rw [changes, changes, LetLang.changes, followed_of_ok hcallee]
      dsimp only
      rw [followed_of_ok hargument, List.append_assoc, List.append_assoc]
      exact List.prefix_refl _

theorem Reaches.contains {visit reached : Visit} (h : visit.Reaches reached) :
    visit.Contains reached := by
  induction h with
  | refl => exact .refl visit
  | tail _ hmakes ih => exact ih.trans hmakes.contains

end Visit

/-! ### Sessions -/

/-- The changes that evaluating expressions one after the other makes, whether they fail or not. -/
def changesOfEach (budget : Nat) (scope : ScopeId) : List Expr → Store → List Change
  | [], _ => []
  | expr :: exprs, store =>
    let made := changes budget expr scope store
    made ++ changesOfEach budget scope exprs (store.after made)

theorem changesOfEach_append (budget : Nat) (scope : ScopeId) (early late : List Expr)
    (store : Store) :
    changesOfEach budget scope (early ++ late) store =
      changesOfEach budget scope early store ++
        changesOfEach budget scope late (store.after (changesOfEach budget scope early store)) := by
  induction early generalizing store with
  | nil => rfl
  | cons expr early ih =>
    simp only [List.cons_append, changesOfEach, ih, Store.after_append, List.append_assoc]

/-- The changes of a text are those of the expressions in it that are evaluated. -/
theorem changesInOrder_eq_changesOfEach (budget : Nat) (scope : ScopeId) (exprs : List Expr)
    (store : Store) :
    changesInOrder budget scope exprs store =
      changesOfEach budget scope ((steps (evaluate budget · scope) exprs store).map Step.expr)
        store := by
  induction exprs generalizing store with
  | nil => rfl
  | cons expr exprs ih =>
    rw [changesInOrder, steps]
    rcases hrun : outcome (evaluate budget expr scope) store with ⟨fault | value, later⟩
    · rw [followed, hrun]
      rfl
    · rw [followed_of_ok hrun, ih, store_eq_after_of_outcome hrun]
      rfl

theorem Program.history_eq_changesOfEach (limits : Limits) (scope : ScopeId) (texts : List String)
    (store : Store) :
    history limits scope texts store =
      changesOfEach limits.evaluation scope ((session limits scope texts store).map Step.expr)
        store := by
  induction texts generalizing store with
  | nil => rfl
  | cons text texts ih =>
    rw [history, session, List.map_append, changesOfEach_append, ← changesInOrder_eq_changesOfEach,
      ih, interpret_store_eq_after]

end LetLang
