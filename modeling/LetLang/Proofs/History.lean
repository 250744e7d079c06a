import LetLang.Proofs.Texts
/-!
# Histories of stores

Evaluation changes a store in three ways only: it binds a name in a scope, opens a scope for a call
or captures a scope for a closure. The history of an evaluation lists these changes in order, also
those before a fault. A beginning of a history is a moment of the run, and carrying it out gives
the store at that moment.
-/
namespace LetLang

/-- A change of a store. -/
inductive Change where
  | bind (scope : ScopeId) (name : String) (value : Value)
  /-- A call of a closure opens a scope within the captured one. -/
  | enter (captured : ScopeId) (binding : Option (String × Value))
  /-- A function literal is evaluated in a scope, and a closure captures a copy of it. -/
  | capture (scope : ScopeId) (param : Option String) (body : Expr)
  deriving DecidableEq, Repr

def Change.apply : Change → Store → Store
  | bind scope name value, store => store.bind scope name value
  | enter captured binding, store => (store.child captured binding.toList).2
  | capture scope _ _, store => (store.snapshot scope).2

/-- The store after changes. -/
def Store.after (store : Store) (changes : List Change) : Store :=
  changes.foldl (fun store change => change.apply store) store

@[simp] theorem Store.after_append (store : Store) (early late : List Change) :
    store.after (early ++ late) = (store.after early).after late := by
  simp [Store.after]

/-- The changes that come after a computation, if it succeeds. -/
def followed {α : Type} (x : Evaluating α) (store : Store) (next : α → Store → List Change) :
    List Change :=
  match outcome x store with
  | (.ok a, store) => next a store
  | (.error _, _) => []

/-- The changes that the evaluation of an expression makes, in order. -/
def changes : (budget : Nat) → Expr → ScopeId → Store → List Change
  | 0, _, _, _ => []
  | budget + 1, expr, scope, store =>
    match expr with
    | .unit | .int _ | .bool _ | .ident _ | .datum _ => []
    | .binary _ left right =>
      changes budget left scope store ++
        followed (evaluate budget left scope) store fun _ store =>
          changes budget right scope store
    | .unary _ operand => changes budget operand scope store
    | .define name bound =>
      changes budget bound scope store ++
        followed (evaluate budget bound scope) store fun value _ => [.bind scope name value]
    | .letIn name bound body =>
      changes budget bound scope store ++
        followed (evaluate budget bound scope) store fun value store =>
          .bind scope name value :: changes budget body scope (store.bind scope name value)
    | .ifThen cond yes =>
      changes budget cond scope store ++
        followed (evaluate budget cond scope) store fun value store =>
          match value with
          | .bool true => changes budget yes scope store
          | _ => []
    | .ifThenElse cond yes no =>
      changes budget cond scope store ++
        followed (evaluate budget cond scope) store fun value store =>
          match value with
          | .bool true => changes budget yes scope store
          | .bool false => changes budget no scope store
          | _ => []
    | .fn param body => [.capture scope param body]
    | .apply callee argument =>
      changes budget callee scope store ++
        followed (evaluate budget callee scope) store fun value store =>
          match value with
          | .closure param body captured =>
            changes budget argument scope store ++
              followed (evaluate budget argument scope) store fun argument store =>
                let opened := store.child captured (param.map (·, argument)).toList
                .enter captured (param.map (·, argument)) ::
                  changes budget body opened.1 opened.2
          | _ => []

theorem after_append_followed {α β : Type} {x : Evaluating α} {f : α → Evaluating β}
    {store : Store} {early : List Change} {next : α → Store → List Change}
    (hx : (outcome x store).2 = store.after early)
    (hf : ∀ a store', outcome x store = (.ok a, store') →
      (outcome (f a) store').2 = store'.after (next a store')) :
    (outcome (x >>= f) store).2 = store.after (early ++ followed x store next) := by
  rw [outcome_bind, followed, Store.after_append, ← hx]
  rcases h : outcome x store with ⟨_ | a, store'⟩
  · rfl
  · exact hf a store' h

/-- Carrying out the changes of an evaluation gives the store that it leaves. -/
theorem evaluate_store_eq_after (budget : Nat) (expr : Expr) (scope : ScopeId) (store : Store) :
    (outcome (evaluate budget expr scope) store).2 =
      store.after (changes budget expr scope store) := by
  induction budget generalizing expr scope store with
  | zero => rfl
  | succ budget ih =>
    cases expr with
    | unit | int | bool | datum | fn => rfl
    | ident name =>
      rw [evaluate, outcome_bind, outcome_get]
      dsimp only
      cases store.lookup? scope name <;> rfl
    | binary op left right =>
      refine after_append_followed (ih left scope store) fun a store' _ => ?_
      rw [← ih right scope store', outcome_bind]
      rcases outcome (evaluate budget right scope) store' with ⟨_ | b, _⟩ <;> rfl
    | unary op operand =>
      rw [evaluate, changes, ← ih operand scope store, outcome_bind]
      rcases outcome (evaluate budget operand scope) store with ⟨_ | a, _⟩ <;> rfl
    | define name bound =>
      exact after_append_followed (ih bound scope store) fun _ _ _ => rfl
    | letIn name bound body =>
      refine after_append_followed (ih bound scope store) fun value store' _ => ?_
      exact ih body scope (store'.bind scope name value)
    | ifThen cond yes =>
      refine after_append_followed (ih cond scope store) fun value store' _ => ?_
      rcases value with _ | _ | (_ | _) | _
      case bool.true => exact ih yes scope store'
      all_goals rfl
    | ifThenElse cond yes no =>
      refine after_append_followed (ih cond scope store) fun value store' _ => ?_
      rcases value with _ | _ | (_ | _) | _
      case bool.true => exact ih yes scope store'
      case bool.false => exact ih no scope store'
      all_goals rfl
    | apply callee argument =>
      refine after_append_followed (ih callee scope store) fun value store' _ => ?_
      cases value with
      | closure param body captured =>
        refine after_append_followed (ih argument scope store') fun a store'' _ => ?_
        exact ih body _ _
      | unit | int | bool => rfl

/-! ### Sessions -/

/-- The changes that evaluating expressions in order makes, up to the first that fails. -/
def changesInOrder (budget : Nat) (scope : ScopeId) : List Expr → Store → List Change
  | [], _ => []
  | expr :: exprs, store =>
    changes budget expr scope store ++
      followed (evaluate budget expr scope) store fun _ store =>
        changesInOrder budget scope exprs store

/-- The changes that are made when texts are interpreted one after the other. -/
def Program.history (limits : Limits) (scope : ScopeId) : List String → Store → List Change
  | [], _ => []
  | text :: texts, store =>
    changesInOrder limits.evaluation scope (expressions limits.parsing text).1 store ++
      history limits scope texts (outcome (interpret limits text scope) store).2

theorem inOrder_store_eq_after (budget : Nat) (scope : ScopeId) (stop : Option Fault)
    (exprs : List Expr) (store : Store) :
    (outcome (inOrder (evaluate budget · scope) stop exprs) store).2 =
      store.after (changesInOrder budget scope exprs store) := by
  induction exprs generalizing store with
  | nil => cases stop <;> rfl
  | cons expr exprs ih =>
    refine after_append_followed (evaluate_store_eq_after budget expr scope store)
      fun value store' _ => ?_
    rw [← ih store', outcome_bind]
    rcases outcome (inOrder (evaluate budget · scope) stop exprs) store' with ⟨_ | _, _⟩ <;> rfl

/-- Carrying out the changes of a text gives the store that it leaves. -/
theorem interpret_store_eq_after (limits : Limits) (text : String) (scope : ScopeId)
    (store : Store) :
    (outcome (Program.interpret limits text scope) store).2 =
      store.after (changesInOrder limits.evaluation scope
        (Program.expressions limits.parsing text).1 store) := by
  rw [Program.interpret_eq_inOrder, inOrder_store_eq_after]

end LetLang
