import LetLang.Value
/-!
# Scopes

A scope holds bindings and may be nested in an outer scope. All scopes live in one store, so that
several of them can share an outer scope and see each other's changes to it. A snapshot copies the
bindings of one scope and shares what is outside it.
-/
namespace LetLang

structure Scope where
  bindings : List (String × Value)
  outer : Option ScopeId
  deriving DecidableEq, Repr

namespace Scope

def get? (scope : Scope) (name : String) : Option Value :=
  scope.bindings.lookup name

/-- The bindings with `name` bound to `value`, in its old place if it has one. -/
def insert (name : String) (value : Value) : List (String × Value) → List (String × Value)
  | [] => [(name, value)]
  | (key, old) :: rest =>
    if key = name then (name, value) :: rest else (key, old) :: insert name value rest

def put (scope : Scope) (name : String) (value : Value) : Scope :=
  { scope with bindings := insert name value scope.bindings }

/-- A scope with the given bindings, the later ones of a name winning. -/
def ofList (bindings : List (String × Value)) (outer : Option ScopeId) : Scope :=
  { bindings := bindings.foldl (fun made (name, value) => insert name value made) [], outer }

/-- The bindings, ordered by name. -/
def sorted (scope : Scope) : List (String × Value) :=
  scope.bindings.mergeSort fun a b => a.1 < b.1 || a.1 = b.1

end Scope

structure Store where
  scopes : Array Scope
  deriving DecidableEq, Repr

namespace Store

def empty : Store :=
  { scopes := #[] }

def get? (store : Store) (id : ScopeId) : Option Scope :=
  store.scopes[id]?

/-- Adds a scope. -/
def alloc (store : Store) (scope : Scope) : ScopeId × Store :=
  (store.scopes.size, { scopes := store.scopes.push scope })

/-- Adds a scope with no outer one. -/
def root (store : Store) (bindings : List (String × Value)) : ScopeId × Store :=
  store.alloc (.ofList bindings none)

/-- Adds a scope within `outer`. -/
def child (store : Store) (outer : ScopeId) (bindings : List (String × Value)) :
    ScopeId × Store :=
  store.alloc (.ofList bindings (some outer))

/-- Adds a copy of a scope's own bindings within the same outer scope. -/
def snapshot (store : Store) (id : ScopeId) : ScopeId × Store :=
  store.alloc ((store.get? id).getD { bindings := [], outer := none })

/-- Binds a name in a scope, replacing its earlier binding there. -/
def bind (store : Store) (id : ScopeId) (name : String) (value : Value) : Store :=
  { scopes := store.scopes.modify id (·.put name value) }

/-- The scopes from `id` outwards. An outer scope is older than the scopes within it, and a link
that led elsewhere would not be followed. -/
def chain (store : Store) (id : ScopeId) : List Scope :=
  match store.get? id with
  | none => []
  | some scope =>
    scope ::
      match scope.outer with
      | none => []
      | some outer => if outer < id then store.chain outer else []
termination_by id

/-- The value of a name in the innermost scope that binds it. -/
def lookup? (store : Store) (id : ScopeId) (name : String) : Option Value :=
  (store.chain id).findSome? (·.get? name)

/-- The number of scopes around a scope. -/
def depth (store : Store) (id : ScopeId) : Nat :=
  (store.chain id).length - 1

/-- The names that a scope binds itself, in order. -/
def names (store : Store) (id : ScopeId) : List String :=
  match store.get? id with
  | none => []
  | some scope => scope.sorted.map (·.1)

/-- A one-line summary of a scope. -/
def describe (store : Store) (id : ScopeId) : String :=
  "Environment(names=[" ++ ", ".intercalate ((store.names id).map Text.quoted) ++ "], depth=" ++
    Nat.repr (store.depth id) ++ ")"

end Store
end LetLang
