import LetLang.Proofs.History
import LetLang.Proofs.Scopes
/-!
# What an evaluation binds

An evaluation binds in its own scope, and in the scopes that it opens itself. In its own scope it
binds only names of the `let`s that stand in the expression outside every function body, whatever
closures it calls in between and wherever it fails. Every other scope that was there stays as it
was, also if a closure that is called has captured it.
-/
namespace LetLang

/-- The names that the `let`s of an expression bind, but for those in function bodies. -/
def Expr.lets : Expr → List String
  | unit | int _ | bool _ | ident _ | fn _ _ | datum _ => []
  | binary _ left right => left.lets ++ right.lets
  | unary _ operand => operand.lets
  | define name bound => name :: bound.lets
  | letIn name bound body => name :: (bound.lets ++ body.lets)
  | ifThen cond yes => cond.lets ++ yes.lets
  | ifThenElse cond yes no => cond.lets ++ yes.lets ++ no.lets
  | apply callee argument => callee.lets ++ argument.lets

/-! ### Binding one after the other -/

/-- The scope with names bound in order. -/
def Scope.putAll (scope : Scope) (bindings : List (String × Value)) : Scope :=
  bindings.foldl (fun scope binding => scope.put binding.1 binding.2) scope

namespace Scope

variable {scope : Scope} {bindings : List (String × Value)} {name : String}

@[simp] theorem putAll_nil : scope.putAll [] = scope := rfl

@[simp] theorem putAll_cons (binding : String × Value) :
    scope.putAll (binding :: bindings) = (scope.put binding.1 binding.2).putAll bindings := rfl

@[simp] theorem outer_putAll : (scope.putAll bindings).outer = scope.outer := by
  induction bindings generalizing scope with
  | nil => rfl
  | cons binding bindings ih => rw [putAll_cons, ih, put]

/-- A name is bound again, or it keeps the value that it had. -/
theorem get?_putAll (scope : Scope) (bindings : List (String × Value)) (name : String) :
    (scope.putAll bindings).get? name = scope.get? name ∨
      name ∈ bindings.map (·.1) ∧ ((scope.putAll bindings).get? name).isSome := by
  induction bindings generalizing scope with
  | nil => exact .inl rfl
  | cons binding bindings ih =>
    have hrest := ih (scope.put binding.1 binding.2)
    rw [putAll_cons]
    by_cases hname : name = binding.1
    · rw [get?_put, if_pos hname] at hrest
      have hsome : (((scope.put binding.1 binding.2).putAll bindings).get? name).isSome := by
        rcases hrest with h | h
        · simp [h]
        · exact h.2
      exact .inr ⟨by simp [hname], hsome⟩
    · rw [get?_put, if_neg hname] at hrest
      exact hrest.imp_right fun h => ⟨by simp [h.1], h.2⟩

end Scope

/-- What changes bind in a scope, in order. -/
def lettings (scope : ScopeId) (changes : List Change) : List (String × Value) :=
  changes.filterMap fun
    | .bind id name value => if id = scope then some (name, value) else none
    | _ => none

@[simp] theorem lettings_append (scope : ScopeId) (early late : List Change) :
    lettings scope (early ++ late) = lettings scope early ++ lettings scope late :=
  List.filterMap_append

theorem mem_lettings {scope : ScopeId} {changes : List Change} {name : String} {value : Value} :
    (name, value) ∈ lettings scope changes ↔ .bind scope name value ∈ changes := by
  constructor
  · intro h
    obtain ⟨change, hmem, hchange⟩ := List.mem_filterMap.1 h
    cases change with
    | bind id key bound =>
      simp only at hchange
      split at hchange
      · next hid =>
        cases hchange
        exact hid ▸ hmem
      · cases hchange
    | enter | capture => cases hchange
  · intro h
    exact List.mem_filterMap.2 ⟨_, h, by simp⟩

/-! ### Scopes after changes -/

namespace Store

variable {store : Store} {id : ScopeId}

theorem size_le_apply (store : Store) (change : Change) :
    store.scopes.size ≤ (change.apply store).scopes.size := by
  cases change <;> simp [Change.apply, child, snapshot]

theorem size_le_after (store : Store) (changes : List Change) :
    store.scopes.size ≤ (store.after changes).scopes.size := by
  induction changes generalizing store with
  | nil => exact Nat.le_refl _
  | cons change changes ih =>
    exact Nat.le_trans (size_le_apply store change) (ih (change.apply store))

theorem get?_apply (hid : id < store.scopes.size) (change : Change) :
    (change.apply store).get? id = (store.get? id).map (·.putAll (lettings id [change])) := by
  cases change with
  | bind scope name value =>
    by_cases h : scope = id
    · simp [Change.apply, lettings, h]
    · simp [Change.apply, get?_bind, lettings, h]
  | enter captured binding =>
    simp [Change.apply, child, lettings, Nat.ne_of_lt hid]
  | capture scope param body =>
    simp [Change.apply, snapshot, lettings, Nat.ne_of_lt hid]

/-- A scope that was there holds what it held, and what was bound in it since. -/
theorem get?_after (hid : id < store.scopes.size) (changes : List Change) :
    (store.after changes).get? id = (store.get? id).map (·.putAll (lettings id changes)) := by
  induction changes generalizing store with
  | nil =>
    change store.get? id = _
    simp [lettings]
  | cons change changes ih =>
    have hlt := Nat.lt_of_lt_of_le hid (size_le_apply store change)
    have hsplit : lettings id (change :: changes) = lettings id [change] ++ lettings id changes :=
      lettings_append id [change] changes
    change ((change.apply store).after changes).get? id = _
    rw [ih hlt, get?_apply hid, Option.map_map, hsplit]
    simp [Function.comp_def, Scope.putAll]

end Store

/-! ### Where an evaluation binds -/

/-- Of the scopes that there are, the changes bind in `scope` only, and only `names` there. -/
def Confined (store : Store) (scope : ScopeId) (names : List String) (changes : List Change) :
    Prop :=
  ∀ id name value, .bind id name value ∈ changes →
    (id = scope ∧ name ∈ names) ∨ store.scopes.size ≤ id

namespace Confined

variable {store : Store} {scope : ScopeId} {names : List String} {early late : List Change}

theorem nil : Confined store scope names [] := by
  intro id name value h
  simp at h

theorem append (h : Confined store scope names early) (h' : Confined store scope names late) :
    Confined store scope names (early ++ late) := by
  intro id name value hmem
  rcases List.mem_append.1 hmem with hmem | hmem
  · exact h id name value hmem
  · exact h' id name value hmem

theorem mono {names' : List String} (h : Confined store scope names early)
    (hsub : ∀ name ∈ names, name ∈ names') : Confined store scope names' early := by
  intro id name value hmem
  exact (h id name value hmem).imp_left fun hid => ⟨hid.1, hsub name hid.2⟩

theorem bind {name : String} {value : Value} (hname : name ∈ names) :
    Confined store scope names [.bind scope name value] := by
  intro id key bound hmem
  simp only [List.mem_singleton, Change.bind.injEq] at hmem
  exact .inl ⟨hmem.1, hmem.2.1 ▸ hname⟩

/-- Scopes that come later than others are not among those. -/
theorem older {store' : Store} (h : Confined store' scope names early)
    (hle : store.scopes.size ≤ store'.scopes.size) : Confined store scope names early := by
  intro id name value hmem
  exact (h id name value hmem).imp_right (Nat.le_trans hle)

/-- What is bound in a new scope only concerns none of those that there are. -/
theorem opened {scope' : ScopeId} {names' : List String} (h : Confined store scope names early)
    (hnew : store.scopes.size ≤ scope) : Confined store scope' names' early := by
  intro id name value hmem
  rcases h id name value hmem with ⟨rfl, -⟩ | hle
  · exact .inr hnew
  · exact .inr hle

theorem followed {α : Type} {x : Evaluating α} {next : α → Store → List Change}
    (hsize : store.scopes.size ≤ (outcome x store).2.scopes.size)
    (h : ∀ a store', outcome x store = (.ok a, store') →
      Confined store' scope names (next a store')) :
    Confined store scope names (followed x store next) := by
  unfold LetLang.followed
  rcases hx : outcome x store with ⟨fault | a, store'⟩
  · exact nil
  · rw [hx] at hsize
    exact (h a store' hx).older hsize

theorem of_mem_lettings {id : ScopeId} {binding : String × Value}
    (h : Confined store scope names early) (hid : id < store.scopes.size)
    (hmem : binding ∈ lettings id early) : id = scope ∧ binding.1 ∈ names := by
  have hbind := h id binding.1 binding.2 (mem_lettings.1 hmem)
  exact hbind.resolve_right (Nat.not_le.2 hid)

end Confined

theorem size_le_evaluate (budget : Nat) (expr : Expr) (scope : ScopeId) (store : Store) :
    store.scopes.size ≤ (outcome (evaluate budget expr scope) store).2.scopes.size := by
  rw [evaluate_store_eq_after]
  exact Store.size_le_after _ _

/-- The changes of an evaluation bind in its scope only, and only names of its own `let`s. -/
theorem changes_confined (budget : Nat) (expr : Expr) (scope : ScopeId) (store : Store) :
    Confined store scope expr.lets (changes budget expr scope store) := by
  induction budget generalizing expr scope store with
  | zero => exact Confined.nil
  | succ budget ih =>
    have hsize := fun expr => size_le_evaluate budget expr scope store
    cases expr with
    | unit | int | bool | ident | datum => exact Confined.nil
    | binary op left right =>
      apply ((ih left scope store).mono (by simp_all [Expr.lets])).append
      apply Confined.followed (hsize left)
      intro _ store' _
      exact (ih right scope store').mono (by simp_all [Expr.lets])
    | unary op operand => exact ih operand scope store
    | define name bound =>
      apply ((ih bound scope store).mono (by simp_all [Expr.lets])).append
      apply Confined.followed (hsize bound)
      intro value _ _
      exact Confined.bind (by simp [Expr.lets])
    | letIn name bound body =>
      apply ((ih bound scope store).mono (by simp_all [Expr.lets])).append
      apply Confined.followed (hsize bound)
      intro value store' _
      have hbody : Confined store' scope body.lets
          (changes budget body scope (store'.bind scope name value)) :=
        (ih body scope _).older (by simp)
      apply Confined.append (Confined.bind (by simp [Expr.lets]))
      exact hbody.mono (by simp_all [Expr.lets])
    | ifThen cond yes =>
      apply ((ih cond scope store).mono (by simp_all [Expr.lets])).append
      apply Confined.followed (hsize cond)
      intro value store' _
      rcases value with _ | _ | (_ | _) | _
      case bool.true => exact (ih yes scope store').mono (by simp_all [Expr.lets])
      all_goals exact Confined.nil
    | ifThenElse cond yes no =>
      apply ((ih cond scope store).mono (by simp_all [Expr.lets])).append
      apply Confined.followed (hsize cond)
      intro value store' _
      rcases value with _ | _ | (_ | _) | _
      case bool.true => exact (ih yes scope store').mono (by simp_all [Expr.lets])
      case bool.false => exact (ih no scope store').mono (by simp_all [Expr.lets])
      all_goals exact Confined.nil
    | fn param body =>
      intro id name value hmem
      simp [changes] at hmem
    | apply callee argument =>
      apply ((ih callee scope store).mono (by simp_all [Expr.lets])).append
      apply Confined.followed (hsize callee)
      intro value store' _
      cases value with
      | closure param body captured =>
        apply ((ih argument scope store').mono (by simp_all [Expr.lets])).append
        apply Confined.followed (size_le_evaluate budget argument scope store')
        intro value store'' _
        -- The body is evaluated in a scope that is opened for it, so it binds in no old one.
        let opened := store''.child captured (param.map (·, value)).toList
        have hbody : Confined store'' opened.1 body.lets
            (changes budget body opened.1 opened.2) :=
          (ih body opened.1 opened.2).older (by simp [opened, Store.child])
        have hnew : store''.scopes.size ≤ opened.1 := Nat.le_refl _
        have henter : Confined store'' scope (callee.lets ++ argument.lets)
            [.enter captured (param.map (·, value))] := by
          intro id name bound hmem
          simp at hmem
        exact henter.append (hbody.opened hnew)
      | unit | int | bool => exact Confined.nil

/-- An expression without `let`s outside function bodies binds nothing in its scope. -/
theorem lettings_eq_nil {expr : Expr} (hlets : expr.lets = []) {scope : ScopeId} {store : Store}
    (hlt : scope < store.scopes.size) (budget : Nat) :
    lettings scope (changes budget expr scope store) = [] := by
  apply List.eq_nil_iff_forall_not_mem.2
  intro binding hmem
  have hname := ((changes_confined budget expr scope store).of_mem_lettings hlt hmem).2
  rw [hlets] at hname
  cases hname

/-- Wherever an evaluation ends, every scope that there was is as it was, but for the one that it
took place in. That one has the outer scope that it had, has lost no name, and differs only in
names that `let`s outside function bodies bind; no other name was bound there meanwhile. -/
theorem evaluate_extends_its_scope (budget : Nat) (expr : Expr) (scope : ScopeId)
    (store : Store) :
    let after := (outcome (evaluate budget expr scope) store).2
    (∀ id, id < store.scopes.size → id ≠ scope → after.get? id = store.get? id) ∧
    (∀ own, store.get? scope = some own → ∃ own', after.get? scope = some own' ∧
      own'.outer = own.outer ∧
      (∀ name, (own.get? name).isSome → (own'.get? name).isSome) ∧
      ∀ name, own'.get? name ≠ own.get? name → name ∈ expr.lets) ∧
    ∀ id name value, .bind id name value ∈ changes budget expr scope store →
      id < store.scopes.size → id = scope ∧ name ∈ expr.lets := by
  intro after
  have hafter : after = store.after (changes budget expr scope store) :=
    evaluate_store_eq_after budget expr scope store
  have hconfined := changes_confined budget expr scope store
  refine ⟨?_, ?_, ?_⟩
  · intro id hid hne
    have hnone : lettings id (changes budget expr scope store) = [] := by
      apply List.eq_nil_iff_forall_not_mem.2
      intro binding hmem
      exact hne (hconfined.of_mem_lettings hid hmem).1
    rw [hafter, Store.get?_after hid, hnone]
    simp
  · intro own hown
    have hlt := Store.lt_size_of_get? hown
    refine ⟨own.putAll (lettings scope (changes budget expr scope store)), ?_, by simp, ?_, ?_⟩
    · rw [hafter, Store.get?_after hlt, hown, Option.map_some]
    · intro name hname
      rcases own.get?_putAll _ name with h | h
      · rw [h]
        exact hname
      · exact h.2
    · intro name hne
      rcases own.get?_putAll _ name with h | h
      · exact absurd h hne
      · obtain ⟨binding, hmem, rfl⟩ := List.mem_map.1 h.1
        exact (hconfined.of_mem_lettings hlt hmem).2
  · intro id name value hmem hid
    exact (hconfined id name value hmem).resolve_right (Nat.not_le.2 hid)

/-- A closure that has captured the scope of the call, and the scope around it, binds names of both
in a scope of its own; the call is followed by a fault. -/
theorem evaluate_extends_its_scope_captured :
    let body := Expr.letIn "x" (.binary .add (.ident "x") (.ident "y")) (.define "k" (.ident "x"))
    let own := Scope.mk [("x", .int 5)] (some 0)
    let store := Store.mk #[⟨[("k", .int 1), ("f", .closure (some "y") body 1)], none⟩, own]
    let expr := Expr.letIn "z" (.apply (.ident "f") (.int 2)) (.ident "undefined")
    let last := outcome (evaluate 9 expr 1) store
    last.1.isOk = false ∧
      last.2.get? 2 = some ⟨[("y", .int 2), ("x", .int 7), ("k", .int 7)], some 1⟩ ∧
      last.2.get? 0 = store.get? 0 ∧ store.get? 1 = some own ∧
      ∃ own', last.2.get? 1 = some own' ∧ own'.outer = own.outer ∧
        (∀ name, (own.get? name).isSome → (own'.get? name).isSome) ∧
        ∀ name, own'.get? name ≠ own.get? name → name ∈ ["z"] := by
  intro body own store expr last
  have h := evaluate_extends_its_scope 9 expr 1 store
  have hown : store.get? 1 = some own := rfl
  exact ⟨by decide +kernel, by decide +kernel, h.1 0 (by decide) (by decide), hown, h.2.1 own hown⟩

end LetLang
