import LetLang.Proofs.Immutable.Stage
import LetLang.Proofs.Origins
import LetLang.Proofs.Trees
/-!
# Classes of expressions that evaluation does not leave

The only expressions that a value can hold are bodies of functions, and these are parts of the
expressions that were evaluated. So a class of expressions that contains the parts of its members is
never left: not by a value, not by a binding in the store, and not by what an evaluation complains
about.
-/
namespace LetLang

open Evaluating

/-- The class contains the children of its members. -/
def Expr.Hereditary (P : Expr → Prop) : Prop :=
  ∀ expr, P expr → ∀ child ∈ expr.children, P child

/-- The value is no closure, or its function is in the class. -/
def Value.Inside (P : Expr → Prop) : Value → Prop
  | .closure param body _ => P (.fn param body)
  | .unit | .int _ | .bool _ => True

def Scope.Inside (P : Expr → Prop) (scope : Scope) : Prop :=
  ∀ name value, scope.get? name = some value → value.Inside P

def Store.Inside (P : Expr → Prop) (store : Store) : Prop :=
  ∀ id scope, store.get? id = some scope → scope.Inside P

variable {P : Expr → Prop}

theorem Value.inside_of_ne_closure {value : Value}
    (h : ∀ param body captured, value ≠ .closure param body captured) : value.Inside P := by
  cases value with
  | closure param body captured => exact absurd rfl (h param body captured)
  | unit | int | bool => trivial

/-! ### Stores -/

theorem Scope.Inside.put {scope : Scope} (h : scope.Inside P) {name : String} {value : Value}
    (hvalue : value.Inside P) : (scope.put name value).Inside P := by
  intro key found hfound
  rw [get?_put] at hfound
  split at hfound
  · cases hfound
    exact hvalue
  · exact h key found hfound

theorem Scope.inside_ofList {binding : Option (String × Value)} {outer : Option ScopeId}
    (h : ∀ pair ∈ binding, pair.2.Inside P) : (ofList binding.toList outer).Inside P := by
  intro key found hfound
  rw [get?_ofList_toList] at hfound
  cases binding with
  | none => cases hfound
  | some pair =>
    rw [Option.toList_some, lookup_cons_eq_ite] at hfound
    split at hfound
    · cases hfound
      exact h pair rfl
    · cases hfound

namespace Store

variable {store : Store}

theorem inside_start : Program.start.Inside P := by
  intro id scope hget
  have hscope : scope = Scope.ofList [] none := by
    rw [Program.start, root, get?_alloc] at hget
    split at hget
    · exact (Option.some.inj hget).symm
    · cases hget
  rw [hscope]
  exact @Scope.inside_ofList P none _ (by simp)

theorem Inside.alloc (h : store.Inside P) {scope : Scope} (hscope : scope.Inside P) :
    (store.alloc scope).2.Inside P := by
  intro id found hget
  rw [get?_alloc] at hget
  split at hget
  · cases hget
    exact hscope
  · exact h id found hget

theorem Inside.child (h : store.Inside P) (outer : ScopeId) {binding : Option (String × Value)}
    (hbinding : ∀ pair ∈ binding, pair.2.Inside P) :
    (store.child outer binding.toList).2.Inside P :=
  h.alloc (Scope.inside_ofList hbinding)

theorem Inside.snapshot (h : store.Inside P) (id : ScopeId) : (store.snapshot id).2.Inside P := by
  apply h.alloc
  cases hget : store.get? id with
  | none =>
    intro name value hvalue
    cases hvalue
  | some scope => exact h id scope hget

theorem Inside.bind (h : store.Inside P) (id : ScopeId) (name : String) {value : Value}
    (hvalue : value.Inside P) : (store.bind id name value).Inside P := by
  intro other scope hget
  rw [get?_bind] at hget
  split at hget
  · obtain ⟨old, hold, rfl⟩ := Option.map_eq_some_iff.1 hget
    exact (h other old hold).put hvalue
  · exact h other scope hget

theorem Inside.lookup? (h : store.Inside P) {id : ScopeId} {name : String} {value : Value}
    (hvalue : store.lookup? id name = some value) : value.Inside P := by
  obtain ⟨holder, scope, hget, hbound⟩ := exists_get?_of_lookup? hvalue
  exact h holder scope hget name value hbound

end Store

/-! ### Evaluation -/

variable {α β : Type}

/-- The computation does not lead a store out of the class, and what it gives has a property. -/
structure Keeps (P : Expr → Prop) (property : α → Prop) (x : Evaluating α) : Prop where
  store : ∀ {store : Store}, store.Inside P → (outcome x store).2.Inside P
  value : ∀ {store a store'}, store.Inside P → outcome x store = (.ok a, store') → property a

namespace Keeps

variable {p : α → Prop} {q : β → Prop}

theorem pure {a : α} (h : p a) : Keeps P p (Pure.pure a : Evaluating α) where
  store hstore := hstore
  value _ heq := by
    cases heq
    exact h

theorem bind {x : Evaluating α} {f : α → Evaluating β} (hx : Keeps P p x)
    (hf : ∀ a, p a → Keeps P q (f a)) : Keeps P q (x >>= f) where
  store {store} hstore := by
    have hkept := hx.store hstore
    rcases hfirst : outcome x store with ⟨fault | a, store₁⟩
    · rw [outcome_bind_of_error hfirst]
      rwa [hfirst] at hkept
    · rw [outcome_bind_of_ok hfirst]
      rw [hfirst] at hkept
      exact (hf a (hx.value hstore hfirst)).store hkept
  value {store b store'} hstore heq := by
    obtain ⟨a, store₁, hfirst, hrest⟩ := outcome_bind_eq_ok.1 heq
    have hkept := hx.store hstore
    rw [hfirst] at hkept
    exact (hf a (hx.value hstore hfirst)).value hkept hrest

theorem lift {result : Except Fault α} (h : ∀ a, result = .ok a → p a) :
    Keeps P p (Evaluating.lift result) where
  store hstore := hstore
  value {_ a _} _ heq := h a (congrArg Prod.fst heq)

theorem complain (error : Option LanguageError) :
    Keeps P p (Evaluating.lift (Value.complain error)) := by
  apply lift
  intro a heq
  cases error <;> cases heq

theorem modify {change : Store → Store}
    (h : ∀ store : Store, store.Inside P → (change store).Inside P) :
    Keeps P (fun _ => True) (modify change : Evaluating Unit) where
  store hstore := h _ hstore
  value _ _ := trivial

end Keeps

theorem keeps_enter {eval : Expr → ScopeId → Evaluating Value} {param : Option String} {body : Expr}
    (h : ∀ scope, Keeps P (Value.Inside P) (eval body scope)) (captured : ScopeId)
    {argument : Value} (hargument : argument.Inside P) :
    Keeps P (Value.Inside P) (enter eval param body captured argument) := by
  have hopen : Keeps P (fun _ => True)
      (modifyGet (·.child captured (param.map (·, argument)).toList) : Evaluating ScopeId) := by
    refine ⟨fun hstore => hstore.child captured ?_, fun _ _ => trivial⟩
    intro pair hpair
    obtain ⟨name, -, rfl⟩ := Option.map_eq_some_iff.1 hpair
    exact hargument
  exact hopen.bind fun frame _ => h frame

variable (hP : Expr.Hereditary P)
include hP

theorem evaluate_keeps (budget : Nat) {expr : Expr} (h : P expr) (scope : ScopeId) :
    Keeps P (Value.Inside P) (evaluate budget expr scope) := by
  induction budget generalizing expr scope with
  | zero => exact ⟨fun hstore => hstore, fun _ heq => by cases heq⟩
  | succ budget ih =>
    have hchild {child : Expr} (hmem : child ∈ expr.children) (scope : ScopeId) :
        Keeps P (Value.Inside P) (evaluate budget child scope) := ih (hP expr h child hmem) scope
    cases expr with
    | unit | int | bool => exact .pure trivial
    | ident name =>
      have hlookup (store : Store) : outcome (evaluate (budget + 1) (.ident name) scope) store =
          ((store.lookup? scope name).elim (.error (.language (.undefinedIdentifier name))) .ok,
            store) := by
        rw [evaluate, outcome_bind_of_ok (outcome_get store)]
        cases store.lookup? scope name <;> rfl
      constructor
      · intro store hstore
        rw [hlookup]
        exact hstore
      · intro store value store' hstore heq
        rw [hlookup] at heq
        cases hfound : store.lookup? scope name with
        | none =>
          rw [hfound] at heq
          cases heq
        | some found =>
          rw [hfound] at heq
          cases heq
          exact hstore.lookup? hfound
    | binary op left right =>
      refine (hchild (by simp [Expr.children]) scope).bind fun a _ => ?_
      refine (hchild (by simp [Expr.children]) scope).bind fun b _ => .lift fun value heq => ?_
      exact Value.inside_of_ne_closure (binary_ne_closure heq)
    | unary op operand =>
      refine (hchild (by simp [Expr.children]) scope).bind fun a _ => .lift fun value heq => ?_
      exact Value.inside_of_ne_closure (unary_ne_closure heq)
    | define name bound =>
      refine (hchild (by simp [Expr.children]) scope).bind fun value hvalue => ?_
      exact (Keeps.modify fun _ hstore => hstore.bind scope name hvalue).bind fun _ _ =>
        .pure hvalue
    | letIn name bound body =>
      refine (hchild (by simp [Expr.children]) scope).bind fun value hvalue => ?_
      exact (Keeps.modify fun _ hstore => hstore.bind scope name hvalue).bind fun _ _ =>
        hchild (by simp [Expr.children]) scope
    | ifThen cond yes =>
      refine (hchild (by simp [Expr.children]) scope).bind fun value _ => ?_
      rcases value with _ | _ | (_ | _) | _
      case bool.true => exact hchild (by simp [Expr.children]) scope
      case bool.false => exact .pure trivial
      all_goals exact .complain _
    | ifThenElse cond yes no =>
      refine (hchild (by simp [Expr.children]) scope).bind fun value _ => ?_
      rcases value with _ | _ | (_ | _) | _
      case bool.true => exact hchild (by simp [Expr.children]) scope
      case bool.false => exact hchild (by simp [Expr.children]) scope
      all_goals exact .complain _
    | fn param body =>
      have hcapture : Keeps P (fun _ => True)
          (modifyGet (·.snapshot scope) : Evaluating ScopeId) :=
        ⟨fun hstore => hstore.snapshot scope, fun _ _ => trivial⟩
      exact hcapture.bind fun captured _ => .pure h
    | apply callee argument =>
      refine (hchild (by simp [Expr.children]) scope).bind fun value hvalue => ?_
      cases value with
      | closure param body captured =>
        refine (hchild (by simp [Expr.children]) scope).bind fun a ha => ?_
        exact keeps_enter (ih (hP _ hvalue body (by simp [Expr.children]))) captured ha
      | unit | int | bool => exact .complain _
    | datum => exact .complain _

/-- What an evaluation gives, and the store after it, are inside the class if what it starts from
is. -/
theorem inside_of_outcome {budget : Nat} {expr : Expr} {scope : ScopeId} {store store' : Store}
    {value : Value} (h : P expr) (hstore : store.Inside P)
    (heq : outcome (evaluate budget expr scope) store = (.ok value, store')) :
    value.Inside P ∧ store'.Inside P := by
  have hkeeps := evaluate_keeps hP budget h scope
  have hafter := hkeeps.store hstore
  rw [heq] at hafter
  exact ⟨hkeeps.value hstore heq, hafter⟩

/-! ### Visits -/

structure Visit.Inside (P : Expr → Prop) (visit : Visit) : Prop where
  expr : P visit.expr
  store : visit.store.Inside P

theorem Visit.Makes.inside {visit part : Visit} (hmakes : visit.Makes part)
    (h : visit.Inside P) : part.Inside P := by
  obtain ⟨hexpr, hstore⟩ := h
  have hchild {child : Expr} (hmem : child ∈ visit.expr.children) : P child :=
    hP visit.expr hexpr child hmem
  cases hmakes with
  | left | bound | cond | condElse | callee | operand | defined =>
    exact ⟨hchild (by simp [Expr.children]), hstore⟩
  | right hfirst | yes hfirst | yesElse hfirst | no hfirst | argument hfirst =>
    have hafter := inside_of_outcome hP (hchild (by simp [Expr.children])) hstore hfirst
    exact ⟨hchild (by simp [Expr.children]), hafter.2⟩
  | body hbound =>
    have hafter := inside_of_outcome hP (hchild (by simp [Expr.children])) hstore hbound
    exact ⟨hchild (by simp [Expr.children]), hafter.2.bind _ _ hafter.1⟩
  | @called _ _ _ _ _ _ body _ _ _ _ hcallee hargument =>
    have hafter := inside_of_outcome hP (hchild (by simp [Expr.children])) hstore hcallee
    have hlast := inside_of_outcome hP (hchild (by simp [Expr.children])) hafter.2 hargument
    refine ⟨hP _ hafter.1 body (by simp [Expr.children]), hlast.2.child _ ?_⟩
    intro pair hpair
    obtain ⟨name, -, rfl⟩ := Option.map_eq_some_iff.1 hpair
    exact hlast.1

theorem Visit.Reaches.inside {visit reached : Visit} (hreaches : visit.Reaches reached)
    (h : visit.Inside P) : reached.Inside P := by
  induction hreaches with
  | refl => exact h
  | tail _ hmakes ih => exact hmakes.inside hP ih

/-! ### Complaints -/

/-- The complaint is about values inside the class, or about an expression in it. -/
structure Complaint.Inside (P : Expr → Prop) (complaint : Complaint) : Prop where
  values : ∀ value ∈ complaint.values, value.Inside P
  unbound : ∀ name, complaint = .unbound name → P (.ident name)
  datum : ∀ found, complaint = .datum found → P (.datum found)

theorem Visit.Raises.inside {visit : Visit} {complaint : Complaint}
    (hraises : visit.Raises complaint) (h : visit.Inside P) : complaint.Inside P := by
  obtain ⟨hexpr, hstore⟩ := h
  have hchild {child : Expr} (hmem : child ∈ visit.expr.children) : P child :=
    hP visit.expr hexpr child hmem
  constructor
  · cases hraises with
    | unbound | datum => simp [Complaint.values]
    | operands hleft hright =>
      have hafter := inside_of_outcome hP (hchild (by simp [Expr.children])) hstore hleft
      have hlast := inside_of_outcome hP (hchild (by simp [Expr.children])) hafter.2 hright
      simp [Complaint.values, hafter.1, hlast.1]
    | dividend => simp [Complaint.values, Value.Inside]
    | operand hfirst | condition hfirst | conditionElse hfirst | callee hfirst =>
      have hafter := inside_of_outcome hP (hchild (by simp [Expr.children])) hstore hfirst
      simp [Complaint.values, hafter.1]
  · rintro name rfl
    cases hraises with
    | unbound => exact hexpr
  · rintro found rfl
    cases hraises with
    | datum => exact hexpr

end LetLang
