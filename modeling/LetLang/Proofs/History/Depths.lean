import LetLang.Proofs.History.Closures
import LetLang.Proofs.History.Visits
import LetLang.Proofs.Scopes.Visibility
import LetLang.Proofs.Trees.Nesting
/-!
# How deep scopes get

Calls may be nested in each other without end, but scopes may not. A closure captures a scope that
is as deep as the one in which its function literal stands, and a call opens a scope one deeper than
the captured one. So the depth of a scope counts the function literals around the code that is
evaluated in it, and what is still to come below that code fits in between it and a bound: the most
function literals that are within each other in an expression of the session.
-/
namespace LetLang

open Evaluating

/-! ### Depths -/

namespace Store

variable {store later : Store} {id : ScopeId}

/-- A scope stays as deep as it is. -/
theorem Keeps.depth_eq (h : store.Keeps later) (hlinked : store.Linked) (hlinked' : later.Linked)
    (hid : id < store.scopes.size) : later.depth id = store.depth id := by
  obtain ⟨path, hpath⟩ := hlinked.exists_path hid
  have hdepth := hpath.depth_eq hlinked
  have hdepth' := (hpath.keeps h).depth_eq hlinked'
  exact Nat.succ.inj (hdepth'.trans hdepth.symm)

theorem Linked.depth_child_eq (h : store.Linked) (hid : id < store.scopes.size)
    (bindings : List (String × Value)) :
    (store.child id bindings).2.depth store.scopes.size = store.depth id + 1 := by
  have hdepth := h.depth_child hid bindings (show AllFit [] _ from trivial)
  have hlinked : (store.child id bindings).2.Linked :=
    @Operation.Fits.linked (.child id bindings) store hid h
  have hkept := (keeps_alloc store (.ofList bindings (some id))).depth_eq h hlinked hid
  exact hdepth.trans (congrArg (· + 1) hkept)

theorem Linked.depth_snapshot (h : store.Linked) (hid : id < store.scopes.size) :
    (store.snapshot id).2.depth store.scopes.size = store.depth id := by
  have hdepth := (h.snapshot_apart hid (show AllFit [] _ from trivial)).1
  have hlinked : (store.snapshot id).2.Linked :=
    @Operation.Fits.linked (.snapshot id) store hid h
  have hkept := (keeps_alloc store _).depth_eq h hlinked hid
  exact hdepth.trans hkept

end Store

/-! ### Values that are bound -/

/-- The value is bound to some name in some scope. -/
def Store.Binds (store : Store) (value : Value) : Prop :=
  ∃ id scope name, store.get? id = some scope ∧ scope.get? name = some value

namespace Change

/-- The values that a change brings into the store. -/
def values : Change → List Value
  | bind _ _ value => [value]
  | enter _ binding => binding.toList.map (·.2)
  | capture _ _ _ => []

/-- A value that is bound after a change was bound before it, or the change brings it. -/
theorem binds_apply {change : Change} {store : Store} {value : Value}
    (h : (change.apply store).Binds value) : store.Binds value ∨ value ∈ change.values := by
  obtain ⟨id, scope, name, hget, hvalue⟩ := h
  cases change with
  | bind target key new =>
    rw [apply, Store.get?_bind] at hget
    split at hget
    · obtain ⟨own, hown, rfl⟩ := Option.map_eq_some_iff.1 hget
      rw [Scope.get?_put] at hvalue
      split at hvalue
      · cases hvalue
        exact .inr List.mem_cons_self
      · exact .inl ⟨id, own, name, hown, hvalue⟩
    · exact .inl ⟨id, scope, name, hget, hvalue⟩
  | enter captured binding =>
    rw [apply, Store.child, Store.get?_alloc] at hget
    split at hget
    · cases hget
      rw [Scope.get?_ofList_toList] at hvalue
      cases binding with
      | none => cases hvalue
      | some pair =>
        rw [Option.toList_some, lookup_cons_eq_ite] at hvalue
        split at hvalue
        · cases hvalue
          exact .inr List.mem_cons_self
        · cases hvalue
    · exact .inl ⟨id, scope, name, hget, hvalue⟩
  | capture original param body =>
    rw [apply, Store.snapshot, Store.get?_alloc] at hget
    split at hget
    · cases hget
      cases hown : store.get? original with
      | none =>
        rw [hown] at hvalue
        cases hvalue
      | some own =>
        rw [hown] at hvalue
        exact .inl ⟨original, own, name, hown, hvalue⟩
    · exact .inl ⟨id, scope, name, hget, hvalue⟩

end Change

/-! ### Changes within a bound -/

/-- A closure captures a scope of the store, and with the function literals in its body it stays
below the bound. -/
def Value.Shallow (bound : Nat) (store : Store) : Value → Prop
  | .closure _ body captured =>
    captured < store.scopes.size ∧ store.depth captured + body.nesting < bound
  | _ => True

theorem Value.shallow_of_ne_closure {bound : Nat} {store : Store} {value : Value}
    (h : ∀ param body captured, value ≠ .closure param body captured) :
    value.Shallow bound store := by
  cases value with
  | closure param body captured => exact absurd rfl (h param body captured)
  | unit | int | bool => trivial

theorem Value.Shallow.keeps {bound : Nat} {store later : Store} {value : Value}
    (h : value.Shallow bound store) (hkeeps : store.Keeps later) (hlinked : store.Linked)
    (hlinked' : later.Linked) : value.Shallow bound later := by
  cases value with
  | closure param body captured =>
    have hdepth := hkeeps.depth_eq hlinked hlinked' h.1
    have hlt : store.depth captured + body.nesting < bound := h.2
    exact ⟨Nat.lt_of_lt_of_le h.1 hkeeps.size, by rwa [hdepth]⟩
  | unit | int | bool => trivial

namespace Store

/-- Links lead to older scopes, and all closures that are bound stay below the bound. -/
structure Shallow (bound : Nat) (store : Store) : Prop where
  linked : store.Linked
  values : ∀ value, store.Binds value → value.Shallow bound store

/-- A scope of the store that an expression may be evaluated in: with the function literals in the
expression it stays within the bound. -/
structure HasRoom (bound : Nat) (store : Store) (id : ScopeId) (expr : Expr) : Prop where
  lt : id < store.scopes.size
  le : store.depth id + expr.nesting ≤ bound

/-- A later store, with the same bound. -/
structure Deepens (bound : Nat) (store later : Store) : Prop where
  keeps : store.Keeps later
  shallow : later.Shallow bound

variable {bound : Nat} {store later last : Store} {id : ScopeId} {expr : Expr}

theorem Deepens.refl (h : store.Shallow bound) : store.Deepens bound store :=
  ⟨.refl store, h⟩

theorem Deepens.trans (h : store.Deepens bound later) (h' : later.Deepens bound last) :
    store.Deepens bound last :=
  ⟨h.keeps.trans h'.keeps, h'.shallow⟩

theorem Deepens.value (h : store.Deepens bound later) (hs : store.Shallow bound) {value : Value}
    (hvalue : value.Shallow bound store) : value.Shallow bound later :=
  hvalue.keeps h.keeps hs.linked h.shallow.linked

theorem Deepens.hasRoom (h : store.Deepens bound later) (hs : store.Shallow bound)
    (hroom : store.HasRoom bound id expr) : later.HasRoom bound id expr where
  lt := Nat.lt_of_lt_of_le hroom.lt h.keeps.size
  le := by
    rw [h.keeps.depth_eq hs.linked h.shallow.linked hroom.lt]
    exact hroom.le

theorem HasRoom.child {part : Expr} (h : store.HasRoom bound id expr)
    (hpart : part ∈ expr.children) : store.HasRoom bound id part where
  lt := h.lt
  le := by
    have hle := Expr.nesting_child_le hpart
    have hroom := h.le
    omega

end Store

namespace Change

/-- The change as an operation on scopes. -/
def operation : Change → Store.Operation
  | bind scope name value => .bind scope name value
  | enter captured binding => .child captured binding.toList
  | capture scope _ _ => .snapshot scope

theorem apply_operation (change : Change) (store : Store) :
    change.operation.apply store = change.apply store := by
  cases change <;> rfl

/-- The scope of the change has room for it, and the values that it brings are shallow. -/
structure Shallow (bound : Nat) (store : Store) (change : Change) : Prop where
  fits : change.operation.Fits store
  values : ∀ value ∈ change.values, value.Shallow bound store
  room : ∀ scope param body, change = .capture scope param body →
    store.HasRoom bound scope (.fn param body)

variable {bound : Nat} {store : Store} {change : Change}

theorem shallow_bind {scope : ScopeId} (name : String) {value : Value}
    (hlt : scope < store.scopes.size) (hvalue : value.Shallow bound store) :
    (bind scope name value).Shallow bound store where
  fits := hlt
  values := by simpa [values] using hvalue
  room := by simp

theorem shallow_enter {captured : ScopeId} {body : Expr} {argument : Value}
    (param : Option String) (hclosure : (Value.closure param body captured).Shallow bound store)
    (hargument : argument.Shallow bound store) :
    (enter captured (param.map (·, argument))).Shallow bound store where
  fits := hclosure.1
  values := by
    cases param with
    | none => simp [values]
    | some name => simpa [values] using hargument
  room := by simp

theorem shallow_capture {scope : ScopeId} {param : Option String} {body : Expr}
    (h : store.HasRoom bound scope (.fn param body)) :
    (capture scope param body).Shallow bound store where
  fits := h.lt
  values := by simp [values]
  room := by
    rintro _ _ _ ⟨⟩
    exact h

/-- One change keeps the bound. -/
theorem Shallow.deepens (h : change.Shallow bound store) (hs : store.Shallow bound) :
    store.Deepens bound (change.apply store) := by
  have hkeeps : store.Keeps (change.apply store) :=
    change.apply_operation store ▸ change.operation.keeps store
  have hlinked : (change.apply store).Linked :=
    change.apply_operation store ▸ h.fits.linked hs.linked
  refine ⟨hkeeps, hlinked, fun value hbinds => ?_⟩
  have hbefore : value.Shallow bound store := by
    rcases binds_apply hbinds with hbound | hbrought
    · exact hs.values value hbound
    · exact h.values value hbrought
  exact hbefore.keeps hkeeps hs.linked hlinked

/-- The closure that is made with a capture stays below the bound. -/
theorem Shallow.captured {scope : ScopeId} {param : Option String} {body : Expr}
    (h : (capture scope param body).Shallow bound store) (hs : store.Shallow bound) :
    (Value.closure param body store.scopes.size).Shallow bound
      ((capture scope param body).apply store) := by
  have hdepth := hs.linked.depth_snapshot h.fits
  have hle : store.depth scope + (body.nesting + 1) ≤ bound := (h.room scope param body rfl).le
  refine ⟨by simp [apply, Store.snapshot], ?_⟩
  rw [apply, hdepth]
  omega

end Change

/-- A call opens a scope one deeper than the captured one, which the body may be evaluated in. -/
theorem Value.Shallow.entered {bound : Nat} {store : Store} {param : Option String} {body : Expr}
    {captured : ScopeId} (h : (Value.closure param body captured).Shallow bound store)
    (hs : store.Shallow bound) (bindings : List (String × Value)) :
    (store.child captured bindings).2.HasRoom bound store.scopes.size body := by
  have hdepth := hs.linked.depth_child_eq h.1 bindings
  have hlt : store.depth captured + body.nesting < bound := h.2
  refine ⟨by simp [Store.child], ?_⟩
  rw [hdepth]
  omega

/-! ### Histories within a bound -/

/-- Every change is shallow in the store in which it happens. -/
def AllShallow (bound : Nat) : List Change → Store → Prop
  | [], _ => True
  | change :: changes, store =>
    change.Shallow bound store ∧ AllShallow bound changes (change.apply store)

section Histories

variable {bound : Nat} {store : Store}

theorem allShallow_append {early late : List Change} :
    AllShallow bound (early ++ late) store ↔
      AllShallow bound early store ∧ AllShallow bound late (store.after early) := by
  induction early generalizing store with
  | nil => simp [AllShallow, Store.after]
  | cons change early ih =>
    rw [List.cons_append, AllShallow, AllShallow, ih, and_assoc]
    rfl

/-- Changes one after the other keep the bound. -/
theorem AllShallow.deepens {changes : List Change} (h : AllShallow bound changes store)
    (hs : store.Shallow bound) : store.Deepens bound (store.after changes) := by
  induction changes generalizing store with
  | nil => exact .refl hs
  | cons change changes ih =>
    have hfirst := h.1.deepens hs
    exact hfirst.trans (ih h.2 hfirst.shallow)

theorem AllShallow.of_isPrefix {moment changes : List Change} (h : AllShallow bound changes store)
    (hmoment : moment <+: changes) : AllShallow bound moment store := by
  obtain ⟨rest, rfl⟩ := hmoment
  exact (allShallow_append.1 h).1

/-- A closure that was made is below the bound from then on. -/
theorem AllShallow.made {done : List Change} {value : Value} (h : AllShallow bound done store)
    (hs : store.Shallow bound) (hmade : Made store done value) :
    value.Shallow bound (store.after done) := by
  cases hmade with
  | unit | int | bool => trivial
  | @closure early late scope param body hdone =>
    subst hdone
    obtain ⟨hearly, hcapture, hlate⟩ := allShallow_append.1 h
    have hbefore := (hearly.deepens hs).shallow
    have hafter := (hcapture.deepens hbefore).shallow
    rw [Store.after_append]
    exact (hlate.deepens hafter).value hafter (hcapture.captured hbefore)

end Histories

/-- The changes of a computation are shallow, and so is its value in the store after them. -/
structure Stays (bound : Nat) (x : Evaluating Value) (changes : List Change) (store : Store) :
    Prop where
  allShallow : AllShallow bound changes store
  store_eq : (outcome x store).2 = store.after changes
  shallow : ∀ value, (outcome x store).1 = .ok value → value.Shallow bound (store.after changes)

namespace Stays

variable {bound : Nat} {store : Store} {x : Evaluating Value} {early : List Change}

/-- A computation that changes nothing and gives no closure. -/
theorem still (hstore : (outcome x store).2 = store)
    (hvalue : ∀ value, (outcome x store).1 = .ok value → value.Shallow bound store) :
    Stays bound x [] store :=
  ⟨trivial, hstore, hvalue⟩

theorem pure {value : Value} (h : value.Shallow bound store) :
    Stays bound (Pure.pure value) [] store := by
  apply still rfl
  rintro _ ⟨⟩
  exact h

theorem complain (error : Option LanguageError) :
    Stays bound (Evaluating.lift (Value.complain error)) [] store := by
  apply still rfl
  intro value hvalue
  cases error <;> cases hvalue

theorem bind {f : Value → Evaluating Value} {next : Value → Store → List Change}
    (hx : Stays bound x early store) (hs : store.Shallow bound)
    (hf : ∀ value later, store.Deepens bound later → value.Shallow bound later →
      Stays bound (f value) (next value later) later) :
    Stays bound (x >>= f) (early ++ followed x store next) store := by
  have hdeepens := hx.allShallow.deepens hs
  rcases hrun : outcome x store with ⟨fault | value, later⟩
  · have hfailed := outcome_bind_of_error hrun f
    have hstore := hx.store_eq
    rw [hrun] at hstore
    rw [followed, hrun, List.append_nil]
    exact ⟨hx.allShallow, by rw [hfailed, hstore], by simp [hfailed]⟩
  · have hgoes := outcome_bind_of_ok hrun f
    obtain rfl : later = store.after early := by
      have hstore := hx.store_eq
      rwa [hrun] at hstore
    have hvalue := hx.shallow value (by rw [hrun])
    have hrest := hf value _ hdeepens hvalue
    rw [followed, hrun]
    refine ⟨allShallow_append.2 ⟨hx.allShallow, hrest.allShallow⟩, ?_, ?_⟩
    · rw [hgoes, hrest.store_eq, Store.after_append]
    · rw [hgoes, Store.after_append]
      exact hrest.shallow

/-- What comes last changes nothing and gives no closure. -/
theorem lift {g : Value → Except Fault Value} (hx : Stays bound x early store)
    (hs : store.Shallow bound)
    (hg : ∀ value result, g value = .ok result →
      ∀ param body captured, result ≠ .closure param body captured) :
    Stays bound (x >>= fun value => Evaluating.lift (g value)) early store := by
  have hnothing : followed x store (fun _ _ => []) = [] := by
    rw [followed]
    split <;> rfl
  have hboth : Stays bound (x >>= fun value => Evaluating.lift (g value))
      (early ++ followed x store fun _ _ => []) store := by
    refine hx.bind hs fun value later _ _ => .still rfl fun result hresult => ?_
    exact Value.shallow_of_ne_closure (hg value result hresult)
  rwa [hnothing, List.append_nil] at hboth

/-- A computation that begins with a change. -/
theorem after_change {change : Change} {y : Evaluating Value} {rest : List Change}
    (h : change.Shallow bound store) (hx : Stays bound x rest (change.apply store))
    (hxy : outcome y store = outcome x (change.apply store)) :
    Stays bound y (change :: rest) store where
  allShallow := ⟨h, hx.allShallow⟩
  store_eq := by
    rw [hxy]
    exact hx.store_eq
  shallow := by
    rw [hxy]
    exact hx.shallow

end Stays

/-- Evaluation where there is room keeps the bound. -/
theorem evaluate_stays {bound : Nat} (budget : Nat) {expr : Expr} {scope : ScopeId} {store : Store}
    (hs : store.Shallow bound) (hroom : store.HasRoom bound scope expr) :
    Stays bound (evaluate budget expr scope) (changes budget expr scope store) store := by
  induction budget generalizing expr scope store with
  | zero => exact .still rfl (by simp [evaluate])
  | succ budget ih =>
    -- every part that is evaluated in the same scope, in a store that is reached later
    have hpart {part : Expr} (hmem : part ∈ expr.children) {later : Store}
        (hlater : store.Deepens bound later) :
        Stays bound (evaluate budget part scope) (changes budget part scope later) later :=
      ih hlater.shallow ((hlater.hasRoom hs hroom).child hmem)
    have hhere := Store.Deepens.refl hs
    have hlt {later : Store} (hlater : store.Deepens bound later) : scope < later.scopes.size :=
      Nat.lt_of_lt_of_le hroom.lt hlater.keeps.size
    cases expr with
    | unit | int | bool => exact .pure trivial
    | datum value => exact .complain _
    | ident name =>
      rw [evaluate]
      apply Stays.still <;> rw [outcome_bind_of_ok (outcome_get store)]
      · cases store.lookup? scope name <;> rfl
      · intro value hvalue
        cases hlookup : store.lookup? scope name with
        | none =>
          rw [hlookup] at hvalue
          cases hvalue
        | some found =>
          rw [hlookup] at hvalue
          cases hvalue
          obtain ⟨holder, own, hget, hbound⟩ := Store.exists_get?_of_lookup? hlookup
          exact hs.values value ⟨holder, own, name, hget, hbound⟩
    | binary op left right =>
      refine (hpart (by simp [Expr.children]) hhere).bind hs fun a later hlater _ => ?_
      exact (hpart (by simp [Expr.children]) hlater).lift hlater.shallow fun b value h => binary_ne_closure h
    | unary op operand =>
      exact (hpart (by simp [Expr.children]) hhere).lift hs fun a value h => unary_ne_closure h
    | define name bound =>
      refine (hpart (by simp [Expr.children]) hhere).bind hs fun value later hlater hvalue => ?_
      have hchange := Change.shallow_bind name (hlt hlater) hvalue
      have hkept := (hchange.deepens hlater.shallow).value hlater.shallow hvalue
      exact Stays.after_change hchange (.pure hkept) rfl
    | letIn name bound body =>
      refine (hpart (by simp [Expr.children]) hhere).bind hs fun value later hlater hvalue => ?_
      have hchange := Change.shallow_bind name (hlt hlater) hvalue
      have hbound := hlater.trans (hchange.deepens hlater.shallow)
      exact Stays.after_change hchange (hpart (by simp [Expr.children]) hbound) rfl
    | ifThen cond yes =>
      refine (hpart (by simp [Expr.children]) hhere).bind hs fun value later hlater _ => ?_
      rcases value with _ | _ | (_ | _) | _
      case bool.true => exact hpart (by simp [Expr.children]) hlater
      case bool.false => exact .pure trivial
      all_goals exact .complain _
    | ifThenElse cond yes no =>
      refine (hpart (by simp [Expr.children]) hhere).bind hs fun value later hlater _ => ?_
      rcases value with _ | _ | (_ | _) | _
      case bool.true => exact hpart (by simp [Expr.children]) hlater
      case bool.false => exact hpart (by simp [Expr.children]) hlater
      all_goals exact .complain _
    | fn param body =>
      have hchange := Change.shallow_capture hroom
      exact Stays.after_change hchange (.pure (hchange.captured hs)) rfl
    | apply callee argument =>
      refine (hpart (by simp [Expr.children]) hhere).bind hs fun value later hlater hvalue => ?_
      cases value with
      | closure param body captured =>
        have hargument : Stays bound (evaluate budget argument scope) _ later :=
          hpart (by simp [Expr.children]) hlater
        refine hargument.bind hlater.shallow fun a last hlast ha => ?_
        have hclosure := hlast.value hlater.shallow hvalue
        have hchange := Change.shallow_enter param hclosure ha
        have hopened := hchange.deepens hlast.shallow
        exact Stays.after_change hchange
          (ih hopened.shallow (hclosure.entered hlast.shallow _)) rfl
      | unit | int | bool => exact .complain _

/-! ### Evaluations in the course of another one -/

namespace Visit

/-- An evaluation in a store within the bound, in a scope with room for its expression. -/
structure Within (bound : Nat) (visit : Visit) : Prop where
  shallow : visit.store.Shallow bound
  room : visit.store.HasRoom bound visit.scope visit.expr

variable {bound : Nat} {visit part reached : Visit}

theorem Within.allShallow (h : visit.Within bound) :
    AllShallow bound visit.changes visit.store :=
  (evaluate_stays visit.budget h.shallow h.room).allShallow

/-- The closure that is called is below the bound, when its body is about to be evaluated. -/
theorem Calls.opens {captured : ScopeId} (h : visit.Calls captured part)
    (hvisit : visit.Within bound) :
    part.Within bound ∧ part.store.depth part.scope = part.store.depth captured + 1 := by
  cases h with
  | @intro budget callee argument scope store param body _ store' value store'' hcallee hargument =>
    have hroom : store.HasRoom bound scope callee := hvisit.room.child (by simp [Expr.children])
    have hroom' : store.HasRoom bound scope argument :=
      hvisit.room.child (by simp [Expr.children])
    have hfirst := evaluate_stays budget hvisit.shallow hroom
    have hlater := hfirst.allShallow.deepens hvisit.shallow
    have hclosure := hfirst.shallow _ (congrArg Prod.fst hcallee)
    rw [← store_eq_after_of_outcome hcallee] at hlater hclosure
    have hsecond := evaluate_stays budget hlater.shallow (hlater.hasRoom hvisit.shallow hroom')
    have hlast := hsecond.allShallow.deepens hlater.shallow
    have hvalue := hsecond.shallow _ (congrArg Prod.fst hargument)
    rw [← store_eq_after_of_outcome hargument] at hlast hvalue
    have hcaptured := hlast.value hlater.shallow hclosure
    have hopened := (Change.shallow_enter param hcaptured hvalue).deepens hlast.shallow
    refine ⟨⟨hopened.shallow, hcaptured.entered hlast.shallow _⟩, ?_⟩
    have hkept := hopened.keeps.depth_eq hlast.shallow.linked hopened.shallow.linked hcaptured.1
    exact (hlast.shallow.linked.depth_child_eq hcaptured.1 _).trans (congrArg (· + 1) hkept.symm)

theorem Makes.within (h : visit.Makes part) (hvisit : visit.Within bound) :
    part.Within bound := by
  rcases h.part_or_calls with ⟨hscope, hexpr⟩ | ⟨captured, hcalls⟩
  · obtain ⟨early, hstore, hchanges⟩ := h.contains
    have hearly : early <+: visit.changes := (List.prefix_append _ _).trans hchanges
    have hdeepens := (hvisit.allShallow.of_isPrefix hearly).deepens hvisit.shallow
    rw [← hstore] at hdeepens
    refine ⟨hdeepens.shallow, ?_⟩
    rw [hscope]
    exact (hdeepens.hasRoom hvisit.shallow hvisit.room).child hexpr
  · exact (hcalls.opens hvisit).1

theorem Reaches.within (h : visit.Reaches reached) (hvisit : visit.Within bound) :
    reached.Within bound := by
  induction h with
  | refl => exact hvisit
  | tail _ hmakes ih => exact hmakes.within ih

/-- At every moment of an evaluation its scope is within the bound. -/
theorem Within.depth_le (h : visit.Within bound) {moment : List Change}
    (hmoment : moment <+: visit.changes) :
    (visit.store.after moment).depth visit.scope ≤ bound := by
  have hdeepens := (h.allShallow.of_isPrefix hmoment).deepens h.shallow
  have hroom := (hdeepens.hasRoom h.shallow h.room).le
  omega

end Visit

/-! ### Sessions -/

theorem changesOfEach_shallow {bound budget : Nat} {scope : ScopeId} {exprs : List Expr}
    {store : Store} (hs : store.Shallow bound)
    (hroom : ∀ expr ∈ exprs, store.HasRoom bound scope expr) :
    AllShallow bound (changesOfEach budget scope exprs store) store := by
  induction exprs generalizing store with
  | nil => trivial
  | cons expr exprs ih =>
    have hfirst := (evaluate_stays budget hs (hroom expr List.mem_cons_self)).allShallow
    have hdeepens := hfirst.deepens hs
    have hrest := ih hdeepens.shallow fun other hother =>
      hdeepens.hasRoom hs (hroom other (List.mem_cons_of_mem _ hother))
    exact allShallow_append.2 ⟨hfirst, hrest⟩

theorem Store.shallow_start (bound : Nat) : Program.start.Shallow bound := by
  refine ⟨linked_empty.alloc (by simp), ?_⟩
  rintro value ⟨id, scope, name, hget, hvalue⟩
  rw [Program.start, root, get?_alloc] at hget
  split at hget
  · cases hget
    cases hvalue
  · cases hget

theorem Store.hasRoom_start {bound : Nat} {expr : Expr} (h : expr.nesting ≤ bound) :
    Program.start.HasRoom bound Program.root expr := by
  have hpath : Program.start.Path Program.root [Program.root] :=
    .outermost (show Program.start.get? Program.root = some (.ofList [] none) from rfl) rfl
  have hdepth := hpath.depth_eq (shallow_start bound).linked
  rw [List.length_singleton] at hdepth
  refine ⟨by decide, ?_⟩
  omega

/-- The most function literals on a path of several expressions are those of the deepest one. -/
theorem isGreatest_of_nesting {steps : List (Step Store Value)} {deepest : Nat}
    (hmem : ∃ begun ∈ steps, begun.expr.nesting = deepest)
    (hle : ∀ begun ∈ steps, begun.expr.nesting ≤ deepest) :
    IsGreatest {n | ∃ begun ∈ steps, ∃ path,
      begun.expr.Path path ∧ path.countP Expr.isFunction = n} deepest := by
  obtain ⟨begun, hbegun, rfl⟩ := hmem
  refine ⟨⟨begun, hbegun, begun.expr.exists_path⟩, ?_⟩
  rintro n ⟨other, hother, path, hpath, rfl⟩
  exact hpath.countP_le.trans (hle other hother)

/-- While an expression of a session is evaluated, let `deepest` be the largest number of function
literals on a path of the expressions that were begun so far. At every moment the scope that a
closure has captured is less deep than that, and a call opens a scope one deeper than the captured
one. Every evaluation that is made in the course of it takes place in a scope that is at most as
deep as that, be it in the scope of the evaluation that makes it or in one that a call has opened. -/
theorem scopes_are_bounded_by_function_literals (limits : Limits) (texts : List String)
    {early late : List (Step Store Value)} {step : Step Store Value} {deepest : Nat}
    (hsession : Program.session limits Program.root texts Program.start = early ++ step :: late)
    (hdeepest : IsGreatest {n | ∃ begun ∈ early ++ [step], ∃ path,
      begun.expr.Path path ∧ path.countP Expr.isFunction = n} deepest) :
    let before := changesOfEach limits.evaluation Program.root (early.map Step.expr) Program.start
    let visit : Visit := ⟨limits.evaluation, step.expr, Program.root, Program.start.after before⟩
    before ++ visit.changes <+: Program.history limits Program.root texts Program.start ∧
    (∀ moment, moment <+: before ++ visit.changes →
      let store := Program.start.after moment
      ∀ param body captured,
        Made Program.start moment (.closure param body captured) ∨
          store.Binds (.closure param body captured) →
        store.depth captured < deepest ∧
        ∀ budget argument,
          let opened := store.child captured (param.map (·, argument)).toList
          outcome (call budget (.closure param body captured) argument) store =
            outcome (evaluate budget body opened.1) opened.2 ∧
          opened.2.depth opened.1 = store.depth captured + 1) ∧
    ∀ reached, visit.Reaches reached →
      (∃ passed, reached.store = Program.start.after passed ∧
        passed ++ reached.changes <+: before ++ visit.changes) ∧
      (∀ moment, moment <+: reached.changes →
        (reached.store.after moment).depth reached.scope ≤ deepest) ∧
      (∀ part, reached.Makes part →
        part.scope = reached.scope ∨ ∃ captured, reached.Calls captured part) ∧
      ∀ captured part, reached.Calls captured part →
        reached.Makes part ∧ part.store.depth part.scope = part.store.depth captured + 1 := by
  intro before visit
  have hstart := Store.shallow_start deepest
  have hle : ∀ begun ∈ early ++ [step], begun.expr.nesting ≤ deepest := by
    intro begun hbegun
    obtain ⟨path, hpath, hcount⟩ := begun.expr.exists_path
    exact hdeepest.2 ⟨begun, hbegun, path, hpath, hcount⟩
  have hbefore : AllShallow deepest before Program.start := by
    refine changesOfEach_shallow hstart fun expr hexpr => ?_
    obtain ⟨begun, hbegun, rfl⟩ := List.mem_map.1 hexpr
    exact Store.hasRoom_start (hle begun (List.mem_append_left _ hbegun))
  have hdeepens := hbefore.deepens hstart
  have hvisit : visit.Within deepest := by
    have hstep : step ∈ early ++ [step] := List.mem_append_right _ List.mem_cons_self
    exact ⟨hdeepens.shallow, hdeepens.hasRoom hstart (Store.hasRoom_start (hle step hstep))⟩
  have hall : AllShallow deepest (before ++ visit.changes) Program.start :=
    allShallow_append.2 ⟨hbefore, hvisit.allShallow⟩
  refine ⟨?_, ?_, ?_⟩
  · rw [Program.history_eq_changesOfEach, hsession, List.map_append, changesOfEach_append]
    exact (List.prefix_append_right_inj _).2 (List.prefix_append _ _)
  · intro moment hmoment store param body captured hclosure
    have hmade := hall.of_isPrefix hmoment
    have hstore := (hmade.deepens hstart).shallow
    have hshallow : (Value.closure param body captured).Shallow deepest store :=
      hclosure.elim (hmade.made hstart) (hstore.values _)
    have hlt : store.depth captured + body.nesting < deepest := hshallow.2
    refine ⟨by omega, fun budget argument => ⟨rfl, ?_⟩⟩
    exact hstore.linked.depth_child_eq hshallow.1 _
  · intro reached hreaches
    have hreached := hreaches.within hvisit
    refine ⟨?_, fun moment hmoment => hreached.depth_le hmoment, fun part hmakes => ?_, ?_⟩
    · obtain ⟨passed, hstore, hchanges⟩ := hreaches.contains
      refine ⟨before ++ passed, by rw [hstore, Store.after_append], ?_⟩
      rw [List.append_assoc]
      exact (List.prefix_append_right_inj before).2 hchanges
    · exact hmakes.part_or_calls.imp_left And.left
    · intro captured part hcalls
      exact ⟨hcalls.makes, (hcalls.opens hreached).2⟩

/-- A function that calls itself by way of a parameter: however often it does, scopes get two deep
at most. -/
theorem scopes_are_bounded_by_function_literals_self_application :
    let texts := ["let down = |self| => |n| => if n = 0 then self else self(self)(n - 1)",
      "down(down)(2)"]
    let down := Expr.fn (some "self") (.fn (some "n") (.ifThenElse
      (.binary .eq (.ident "n") (.int 0)) (.ident "self")
      (.apply (.apply (.ident "self") (.ident "self")) (.binary .sub (.ident "n") (.int 1)))))
    let descent := Expr.apply (.apply (.ident "down") (.ident "down")) (.int 2)
    let before := changesOfEach 99 Program.root [.define "down" down] Program.start
    let visit : Visit := ⟨99, descent, Program.root, Program.start.after before⟩
    let last := Program.start.after (before ++ visit.changes)
    (Program.session ⟨99, 99⟩ Program.root texts Program.start).map Step.expr =
      [.define "down" down, descent] ∧
    (∀ param body captured, last.Binds (.closure param body captured) → last.depth captured < 2) ∧
    ∀ reached, visit.Reaches reached → reached.store.depth reached.scope ≤ 2 := by
  intro texts down descent before visit last
  have hexprs : (Program.session ⟨99, 99⟩ Program.root texts Program.start).map Step.expr =
      [.define "down" down, descent] := by
    decide +kernel
  obtain ⟨first, rest, hsession, hfirst, hrest⟩ := List.map_eq_cons_iff.1 hexprs
  obtain ⟨second, _, rfl, hsecond, -⟩ := List.map_eq_cons_iff.1 hrest
  have hdeepest : IsGreatest {n | ∃ begun ∈ [first] ++ [second], ∃ path,
      begun.expr.Path path ∧ path.countP Expr.isFunction = n} 2 := by
    apply isGreatest_of_nesting
    · exact ⟨first, List.mem_cons_self, by rw [hfirst]; rfl⟩
    · intro begun hbegun
      rcases List.mem_pair.1 hbegun with rfl | rfl
      · rw [hfirst]
        decide
      · rw [hsecond]
        decide
  have hsplit : Program.session ⟨99, 99⟩ Program.root texts Program.start =
      [first] ++ second :: _ := hsession
  have h := scopes_are_bounded_by_function_literals ⟨99, 99⟩ texts hsplit hdeepest
  rw [List.map_singleton, hfirst, hsecond] at h
  obtain ⟨-, hmoments, hreached⟩ := h
  refine ⟨hexprs, fun param body captured hbinds => ?_, fun reached hreaches => ?_⟩
  · exact (hmoments _ (List.prefix_refl _) param body captured (.inr hbinds)).1
  · exact (hreached reached hreaches).2.1 [] List.nil_prefix

end LetLang
