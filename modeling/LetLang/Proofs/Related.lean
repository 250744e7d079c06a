import LetLang.Proofs.History.Frozen
/-!
# Related values

Two values in two stores are related if they are alike as far as anyone can tell who only looks at
certain names: closures have the same parameter and body, and what they have captured resolves the
names that the body depends on to related values again. Which names an expression depends on is
left open here, as long as it depends on its identifiers. Relatedness lasts, since what closures
have captured is frozen, and operators cannot tell related values apart.
-/
namespace LetLang

/-- The expressions that an expression is made of. -/
def Expr.parts : Expr → List Expr
  | unit | int _ | bool _ | ident _ | datum _ => []
  | binary _ left right => [left, right]
  | unary _ operand => [operand]
  | define _ bound => [bound]
  | letIn _ bound body => [bound, body]
  | ifThen cond yes => [cond, yes]
  | ifThenElse cond yes no => [cond, yes, no]
  | fn _ body => [body]
  | apply callee argument => [callee, argument]

/-- The names that are looked at cover every identifier, and those of an expression those of its
parts. -/
structure Covers (sees : Expr → String → Prop) : Prop where
  ident : ∀ name, sees (.ident name) name
  part : ∀ {whole part name}, part ∈ whole.parts → sees part name → sees whole name

mutual

/-- The values are alike for all who look only at the names that function bodies depend on. -/
inductive Related (sees : Expr → String → Prop) (store store' : Store) : Value → Value → Prop
  | unit : Related sees store store' .unit .unit
  | int (n : Int) : Related sees store store' (.int n) (.int n)
  | bool (b : Bool) : Related sees store store' (.bool b) (.bool b)
  | closure (param : Option String) (body : Expr) {captured captured' : ScopeId}
      (resolved : ∀ name, sees body name → RelatedBinding sees store store'
        (store.lookup? captured name) (store'.lookup? captured' name)) :
      Related sees store store' (.closure param body captured) (.closure param body captured')

/-- Neither is bound, or both are, to related values. -/
inductive RelatedBinding (sees : Expr → String → Prop) (store store' : Store) :
    Option Value → Option Value → Prop
  | unbound : RelatedBinding sees store store' none none
  | bound {value value' : Value} (related : Related sees store store' value value') :
      RelatedBinding sees store store' (some value) (some value')

end

/-! ### Operators -/

section Operators

variable {sees : Expr → String → Prop} {store store' : Store} {value value' : Value}

theorem Related.forget_eq (h : Related sees store store' value value') :
    value.forget = value'.forget := by
  cases h <;> rfl

theorem related_of_ne_closure (h : ∀ param body captured, value ≠ .closure param body captured) :
    Related sees store store' value value := by
  cases value with
  | unit => exact .unit
  | int n => exact .int n
  | bool b => exact .bool b
  | closure param body captured => exact absurd rfl (h param body captured)

theorem sameResult_of_ne_closure {result : Except Fault Value}
    (h : ∀ value, result = .ok value → ∀ param body captured,
      value ≠ .closure param body captured) :
    SameResult (Related sees store store') result result := by
  cases result with
  | error fault => exact .error fault
  | ok value => exact .ok (related_of_ne_closure (h value rfl))

theorem Related.binary (op : BinaryOp) {right right' : Value}
    (hl : Related sees store store' value value') (hr : Related sees store store' right right') :
    SameResult (Related sees store store') (value.binary op right) (value'.binary op right') := by
  have heq : value.binary op right = value'.binary op right' := by
    rw [← binary_forget, hl.forget_eq, hr.forget_eq, binary_forget]
  rw [← heq]
  exact sameResult_of_ne_closure fun _ h => binary_ne_closure h

theorem Related.unary (op : UnaryOp) (h : Related sees store store' value value') :
    SameResult (Related sees store store') (value.unary op) (value'.unary op) := by
  have heq : value.unary op = value'.unary op := by
    rw [← unary_forget, h.forget_eq, unary_forget]
  rw [← heq]
  exact sameResult_of_ne_closure fun _ h => unary_ne_closure h

end Operators

/-! ### Relatedness lasts -/

namespace World

variable {world later : World}

/-- A scope that stays as it is resolves every name as it did, since what is around it is frozen. -/
theorem Sound.lookup?_eq (hs : world.Sound) (hl : world.Leads later) {id : ScopeId}
    (hget : later.store.get? id = world.store.get? id) (name : String) :
    later.store.lookup? id name = world.store.lookup? id name := by
  induction id using Nat.strongRecOn with
  | ind id ih =>
    cases hscope : world.store.get? id with
    | none =>
      rw [hscope] at hget
      rw [Store.lookup?, Store.chain, hget, Store.lookup?, Store.chain, hscope]
    | some scope =>
      rw [hscope] at hget
      rw [Store.lookup?_of_get? hget, Store.lookup?_of_get? hscope]
      cases houter : scope.outer with
      | none => rfl
      | some outer =>
        obtain ⟨hfrozen, hlt⟩ := hs.outer id scope outer hscope houter
        simp only [hlt, if_true]
        rw [ih outer hlt (hl.preserved outer hfrozen).2]

theorem Sound.lookup?_eq_of_frozen (hs : world.Sound) (hl : world.Leads later) {id : ScopeId}
    (hid : world.frozen id) (name : String) :
    later.store.lookup? id name = world.store.lookup? id name :=
  hs.lookup?_eq hl (hl.preserved id hid).2 name

end World

section Leads

variable {sees : Expr → String → Prop} {world later world' later' : World}

mutual

theorem Related.leads (hs : world.Sound) (hs' : world'.Sound) (hl : world.Leads later)
    (hl' : world'.Leads later') {value value' : Value} (hk : world.Knows value)
    (hk' : world'.Knows value') :
    Related sees world.store world'.store value value' →
      Related sees later.store later'.store value value'
  | .unit => .unit
  | .int n => .int n
  | .bool b => .bool b
  | .closure param body resolved => .closure param body fun name hname => by
    rw [hs.lookup?_eq_of_frozen hl hk, hs'.lookup?_eq_of_frozen hl' hk']
    exact (resolved name hname).leads hs hs' hl hl' (fun _ h => hs.knows_of_lookup? h)
      fun _ h => hs'.knows_of_lookup? h

theorem RelatedBinding.leads (hs : world.Sound) (hs' : world'.Sound) (hl : world.Leads later)
    (hl' : world'.Leads later') {value value' : Option Value}
    (hk : ∀ found, value = some found → world.Knows found)
    (hk' : ∀ found, value' = some found → world'.Knows found) :
    RelatedBinding sees world.store world'.store value value' →
      RelatedBinding sees later.store later'.store value value'
  | .unbound => .unbound
  | .bound related => .bound (related.leads hs hs' hl hl' (hk _ rfl) (hk' _ rfl))

end

/-- What a scope has resolved stays related, even if the scope does not stay as it is. -/
theorem RelatedBinding.leads_of_lookup? (hs : world.Sound) (hs' : world'.Sound)
    (hl : world.Leads later) (hl' : world'.Leads later') {id id' : ScopeId} {name : String}
    (h : RelatedBinding sees world.store world'.store (world.store.lookup? id name)
      (world'.store.lookup? id' name)) :
    RelatedBinding sees later.store later'.store (world.store.lookup? id name)
      (world'.store.lookup? id' name) :=
  h.leads hs hs' hl hl' (fun _ h => hs.knows_of_lookup? h) fun _ h => hs'.knows_of_lookup? h

/-- What a scope resolves stays related while the scope stays as it is. -/
theorem RelatedBinding.lookup?_leads (hs : world.Sound) (hs' : world'.Sound)
    (hl : world.Leads later) (hl' : world'.Leads later') {id id' : ScopeId} {name : String}
    (hget : later.store.get? id = world.store.get? id)
    (hget' : later'.store.get? id' = world'.store.get? id')
    (h : RelatedBinding sees world.store world'.store (world.store.lookup? id name)
      (world'.store.lookup? id' name)) :
    RelatedBinding sees later.store later'.store (later.store.lookup? id name)
      (later'.store.lookup? id' name) := by
  rw [hs.lookup?_eq hl hget, hs'.lookup?_eq hl' hget']
  exact h.leads_of_lookup? hs hs' hl hl'

end Leads

/-! ### Every value is related to itself -/

namespace World

variable {world : World}

/-- A frozen scope resolves names to values that have captured older scopes than itself. -/
theorem Sound.within_of_lookup? (hs : world.Sound) {id : ScopeId} (hid : world.frozen id)
    {name : String} {value : Value} (h : world.store.lookup? id name = some value) :
    value.Within (· < id) := by
  induction id using Nat.strongRecOn with
  | ind id ih =>
    obtain ⟨scope, hget⟩ : ∃ scope, world.store.get? id = some scope :=
      ⟨_, Array.getElem?_eq_getElem (hs.bounded id hid)⟩
    rw [Store.lookup?_of_get? hget] at h
    cases hvalue : scope.get? name with
    | some found =>
      rw [hvalue, Option.some_or] at h
      cases h
      exact hs.older id scope name value hid hget hvalue
    | none =>
      rw [hvalue, Option.none_or] at h
      cases houter : scope.outer with
      | none =>
        rw [houter] at h
        cases h
      | some outer =>
        obtain ⟨hfrozen, hlt⟩ := hs.outer id scope outer hget houter
        simp only [houter, hlt, if_true] at h
        exact (ih outer hlt hfrozen h).mono fun _ h => Nat.lt_trans h hlt

theorem Sound.related_refl (hs : world.Sound) (sees : Expr → String → Prop) {value : Value}
    (hk : world.Knows value) : Related sees world.store world.store value value := by
  cases value with
  | unit => exact .unit
  | int n => exact .int n
  | bool b => exact .bool b
  | closure param body captured =>
    -- What a closure has captured resolves names to older closures only.
    induction captured using Nat.strongRecOn generalizing param body with
    | ind captured ih =>
      refine .closure param body fun name _ => ?_
      cases hvalue : world.store.lookup? captured name with
      | none => exact .unbound
      | some found =>
        have holder := hs.within_of_lookup? hk hvalue
        have hknown := hs.knows_of_lookup? hvalue
        cases found with
        | unit => exact .bound .unit
        | int n => exact .bound (.int n)
        | bool b => exact .bound (.bool b)
        | closure param body older => exact .bound (ih older holder param body hknown)

end World

end LetLang
