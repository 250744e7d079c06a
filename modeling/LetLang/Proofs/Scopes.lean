import LetLang.Store
/-!
# Scopes in a store

What each operation on scopes and stores does to the bindings of a scope and to the scopes of a
store.
-/
namespace LetLang

/-- The first pair with a name decides what the name is bound to. -/
theorem lookup_cons_eq_ite {α : Type} (key name : String) (value : α)
    (bindings : List (String × α)) :
    ((name, value) :: bindings).lookup key =
      if key = name then some value else bindings.lookup key := by
  by_cases h : key = name
  · simp [h]
  · have hb : (key == name) = false := by simpa using h
    rw [List.lookup_cons, hb, if_neg h]

namespace Scope

theorem lookup_insert (key name : String) (value : Value) (bindings : List (String × Value)) :
    (insert name value bindings).lookup key =
      if key = name then some value else bindings.lookup key := by
  induction bindings with
  | nil => simp only [insert, lookup_cons_eq_ite]
  | cons binding rest ih =>
    rcases binding with ⟨other, old⟩
    by_cases ho : other = name
    · subst other
      simp only [insert, if_true, lookup_cons_eq_ite]
      by_cases h : key = name <;> simp [h]
    · simp only [insert, ho, if_false, lookup_cons_eq_ite, ih]
      by_cases h : key = other
      · simp [h, ho]
      · simp [h]

@[simp] theorem get?_put (scope : Scope) (key name : String) (value : Value) :
    (scope.put name value).get? key = if key = name then some value else scope.get? key :=
  lookup_insert key name value scope.bindings

@[simp] theorem ofList_outer (bindings : List (String × Value)) (outer : Option ScopeId) :
    (ofList bindings outer).outer = outer := rfl

/-- Of bindings of one name the last one counts. -/
theorem get?_ofList (bindings : List (String × Value)) (outer : Option ScopeId) (key : String) :
    (ofList bindings outer).get? key = bindings.reverse.lookup key := by
  have hall : ∀ made : List (String × Value),
      (bindings.foldl (fun made binding => insert binding.1 binding.2 made) made).lookup key =
        (bindings.reverse.lookup key).or (made.lookup key) := by
    induction bindings with
    | nil => simp
    | cons binding bindings ih =>
      intro made
      rw [List.foldl_cons, ih, lookup_insert, List.reverse_cons, List.lookup_append,
        lookup_cons_eq_ite, Option.or_assoc]
      by_cases h : key = binding.1 <;> simp [h]
  simpa [ofList, get?] using hall []

/-- A scope made for a call binds the parameter, if there is one, and nothing else. -/
@[simp] theorem get?_ofList_toList (binding : Option (String × Value)) (outer : Option ScopeId)
    (key : String) : (ofList binding.toList outer).get? key = binding.toList.lookup key := by
  cases binding <;> rfl

end Scope

namespace Store

@[simp] theorem get?_alloc (store : Store) (scope : Scope) (id : ScopeId) :
    (store.alloc scope).2.get? id =
      if id = store.scopes.size then some scope else store.get? id := by
  simp [alloc, get?, Array.getElem?_push]

@[simp] theorem alloc_fst (store : Store) (scope : Scope) :
    (store.alloc scope).1 = store.scopes.size := rfl

@[simp] theorem size_alloc (store : Store) (scope : Scope) :
    (store.alloc scope).2.scopes.size = store.scopes.size + 1 := by
  simp [alloc]

theorem get?_bind (store : Store) (id target : ScopeId) (name : String) (value : Value) :
    (store.bind target name value).get? id =
      if target = id then (store.get? id).map (·.put name value) else store.get? id := by
  simp [bind, get?, Array.getElem?_modify]

@[simp] theorem get?_bind_self (store : Store) (id : ScopeId) (name : String) (value : Value) :
    (store.bind id name value).get? id = (store.get? id).map (·.put name value) := by
  simp [get?_bind]

theorem get?_bind_of_ne {store : Store} {id other : ScopeId} (name : String) (value : Value)
    (h : id ≠ other) : (store.bind other name value).get? id = store.get? id := by
  simp [get?_bind, Ne.symm h]

@[simp] theorem size_bind (store : Store) (id : ScopeId) (name : String) (value : Value) :
    (store.bind id name value).scopes.size = store.scopes.size := by
  simp [bind]

theorem lt_size_of_get? {store : Store} {id : ScopeId} {scope : Scope}
    (h : store.get? id = some scope) : id < store.scopes.size :=
  (Array.getElem?_eq_some_iff.1 h).1

/-- A lookup from a scope tries its own bindings, then those around it. -/
theorem lookup?_of_get? {store : Store} {id : ScopeId} {scope : Scope} {name : String}
    (h : store.get? id = some scope) :
    store.lookup? id name =
      (scope.get? name).or
        (match scope.outer with
        | none => none
        | some outer => if outer < id then store.lookup? outer name else none) := by
  unfold lookup?
  rw [chain]
  simp only [h, List.findSome?_cons]
  cases scope.get? name with
  | some value => rfl
  | none =>
    cases scope.outer with
    | none => rfl
    | some outer =>
      simp only [Option.none_or]
      split <;> rfl

/-- What a lookup finds is bound in a scope of the store. -/
theorem exists_get?_of_lookup? {store : Store} {id : ScopeId} {name : String} {value : Value}
    (h : store.lookup? id name = some value) :
    ∃ id scope, store.get? id = some scope ∧ scope.get? name = some value := by
  induction id using Nat.strongRecOn with
  | ind id ih =>
    cases hget : store.get? id with
    | none =>
      rw [lookup?, chain, hget] at h
      cases h
    | some scope =>
      rw [lookup?_of_get? hget] at h
      cases hvalue : scope.get? name with
      | some found =>
        rw [hvalue, Option.some_or] at h
        exact ⟨id, scope, hget, hvalue.trans h⟩
      | none =>
        rw [hvalue, Option.none_or] at h
        cases houter : scope.outer with
        | none => simp [houter] at h
        | some outer =>
          simp only [houter] at h
          split at h
          · next hlt => exact ih outer hlt h
          · cases h

end Store
end LetLang
