import Mathlib.Logic.Relation
import LetLang.Proofs.Computation
/-!
# Where faults of evaluation come from

An evaluation makes others: of the parts of its expression, and of the body of a closure that it
calls. It fails exactly if it reaches one that fails of itself, and with the fault of that one: its
budget is spent, or it complains about a name that is not bound, or about the values of its parts,
which it needs to be of other kinds.
-/
namespace LetLang

open Evaluating

/-! ### Visits -/

/-- An evaluation that is due. -/
structure Visit where
  budget : Nat
  expr : Expr
  scope : ScopeId
  store : Store

namespace Visit

def result (visit : Visit) : Except Fault Value :=
  (outcome (evaluate visit.budget visit.expr visit.scope) visit.store).1

/-- The evaluations that an evaluation makes itself, each in the store that is left by those before
it. -/
inductive Makes : Visit → Visit → Prop
  | left {budget op left right scope store} :
      Makes ⟨budget + 1, .binary op left right, scope, store⟩ ⟨budget, left, scope, store⟩
  | right {budget op left right scope store value store'}
      (hleft : outcome (evaluate budget left scope) store = (.ok value, store')) :
      Makes ⟨budget + 1, .binary op left right, scope, store⟩ ⟨budget, right, scope, store'⟩
  | operand {budget op operand scope store} :
      Makes ⟨budget + 1, .unary op operand, scope, store⟩ ⟨budget, operand, scope, store⟩
  | defined {budget name bound scope store} :
      Makes ⟨budget + 1, .define name bound, scope, store⟩ ⟨budget, bound, scope, store⟩
  | bound {budget name bound body scope store} :
      Makes ⟨budget + 1, .letIn name bound body, scope, store⟩ ⟨budget, bound, scope, store⟩
  | body {budget name bound body scope store value store'}
      (hbound : outcome (evaluate budget bound scope) store = (.ok value, store')) :
      Makes ⟨budget + 1, .letIn name bound body, scope, store⟩
        ⟨budget, body, scope, store'.bind scope name value⟩
  | cond {budget cond yes scope store} :
      Makes ⟨budget + 1, .ifThen cond yes, scope, store⟩ ⟨budget, cond, scope, store⟩
  | yes {budget cond yes scope store store'}
      (hcond : outcome (evaluate budget cond scope) store = (.ok (.bool true), store')) :
      Makes ⟨budget + 1, .ifThen cond yes, scope, store⟩ ⟨budget, yes, scope, store'⟩
  | condElse {budget cond yes no scope store} :
      Makes ⟨budget + 1, .ifThenElse cond yes no, scope, store⟩ ⟨budget, cond, scope, store⟩
  | yesElse {budget cond yes no scope store store'}
      (hcond : outcome (evaluate budget cond scope) store = (.ok (.bool true), store')) :
      Makes ⟨budget + 1, .ifThenElse cond yes no, scope, store⟩ ⟨budget, yes, scope, store'⟩
  | no {budget cond yes no scope store store'}
      (hcond : outcome (evaluate budget cond scope) store = (.ok (.bool false), store')) :
      Makes ⟨budget + 1, .ifThenElse cond yes no, scope, store⟩ ⟨budget, no, scope, store'⟩
  | callee {budget callee argument scope store} :
      Makes ⟨budget + 1, .apply callee argument, scope, store⟩ ⟨budget, callee, scope, store⟩
  | argument {budget callee argument scope store param body captured store'}
      (hcallee : outcome (evaluate budget callee scope) store =
        (.ok (.closure param body captured), store')) :
      Makes ⟨budget + 1, .apply callee argument, scope, store⟩ ⟨budget, argument, scope, store'⟩
  | called {budget callee argument scope store param body captured store' value store''}
      (hcallee : outcome (evaluate budget callee scope) store =
        (.ok (.closure param body captured), store'))
      (hargument : outcome (evaluate budget argument scope) store' = (.ok value, store'')) :
      Makes ⟨budget + 1, .apply callee argument, scope, store⟩
        ⟨budget, body, (store''.child captured (param.map (·, value)).toList).1,
          (store''.child captured (param.map (·, value)).toList).2⟩

/-- The evaluations that are made in the course of an evaluation, itself among them. -/
def Reaches : Visit → Visit → Prop :=
  Relation.ReflTransGen Makes

end Visit

/-! ### Complaints -/

/-- What an evaluation can be unable to go on with. -/
inductive Complaint where
  | unbound (name : String)
  | operands (op : BinaryOp) (left right : Value)
  | operand (op : UnaryOp) (operand : Value)
  | condition (found : Value)
  | callee (found : Value)
  | dividend (n : Int)
  | datum (found : Datum)

namespace Complaint

/-- The values that a complaint is about. -/
def values : Complaint → List Value
  | unbound _ | datum _ => []
  | operands _ left right => [left, right]
  | operand _ found | condition found | callee found => [found]
  | dividend n => [.int n]

/-- The complaint as an error; none if a value that it is about cannot be written. -/
def error? : Complaint → Option LanguageError
  | unbound name => some (.undefinedIdentifier name)
  | operands op left right =>
    left.describe?.bind fun left => right.describe?.map fun right => .binaryMismatch op left right
  | operand op found => found.describe?.map (.unaryMismatch op)
  | condition found => found.describe?.map .conditionMismatch
  | callee found => found.text?.map .notAFunction
  | dividend n => (Numeral.text? n).map .divisionByZero
  | datum found => found.write?.map .notAnExpression

def fault (complaint : Complaint) : Fault :=
  match complaint.error? with
  | some error => .language error
  | none => .numberTooLong

theorem complain_error? {α : Type} (complaint : Complaint) :
    (Value.complain complaint.error? : Except Fault α) = .error complaint.fault := by
  unfold Value.complain fault
  cases complaint.error? <;> rfl

theorem outcome_complain (complaint : Complaint) (store : Store) :
    (outcome (lift (Value.complain complaint.error?) : Evaluating Value) store).1 =
      .error complaint.fault := by
  rw [complain_error?]
  rfl

end Complaint

/-- The operator is defined on values of the kinds of these. -/
def BinaryOp.Takes : BinaryOp → Value → Value → Prop
  | .add, .int _, .int _ | .sub, .int _, .int _ | .mul, .int _, .int _ | .div, .int _, .int _
  | .eq, .int _, .int _ | .lt, .int _, .int _ | .gt, .int _, .int _ | .eq, .bool _, .bool _
  | .and, .bool _, .bool _ | .or, .bool _, .bool _ => True
  | _, _, _ => False

/-- The operator is defined on values of the kind of this one. -/
def UnaryOp.Takes : UnaryOp → Value → Prop
  | .negate, .int _ | .not, .bool _ => True
  | _, _ => False

namespace Value

variable {op : BinaryOp} {left right : Value}

theorem binaryMismatch_eq (op : BinaryOp) (left right : Value) :
    binaryMismatch op left right = .error (Complaint.operands op left right).fault := by
  rw [← Complaint.complain_error?, binaryMismatch, Complaint.error?]
  cases left.describe? <;> cases right.describe? <;> rfl

theorem binary_of_not_takes (h : ¬ op.Takes left right) :
    left.binary op right = .error (Complaint.operands op left right).fault := by
  rw [← binaryMismatch_eq]
  cases op <;> cases left <;> cases right <;> simp_all [binary, BinaryOp.Takes]

theorem binary_of_takes (h : op.Takes left right) :
    (∃ value, left.binary op right = .ok value) ∨
      ∃ n, op = .div ∧ left = .int n ∧ right = .int 0 := by
  cases op <;> cases left <;> cases right <;> simp_all [binary, BinaryOp.Takes]
  next n d =>
    by_cases hd : d = 0
    · simp [hd]
    · simp [hd]

theorem divide_by_zero (n : Int) :
    (Value.int n).binary .div (.int 0) = .error (Complaint.dividend n).fault := by
  rw [← Complaint.complain_error?, Complaint.error?, binary, if_pos rfl]

theorem unary_of_not_takes {op : UnaryOp} {operand : Value} (h : ¬ op.Takes operand) :
    operand.unary op = .error (Complaint.operand op operand).fault := by
  rw [← Complaint.complain_error?]
  cases op <;> cases operand <;> simp_all [unary, UnaryOp.Takes, Complaint.error?]

theorem unary_of_takes {op : UnaryOp} {operand : Value} (h : op.Takes operand) :
    ∃ value, operand.unary op = .ok value := by
  cases op <;> cases operand <;> simp_all [unary, UnaryOp.Takes]

end Value

namespace Visit

/-- What an evaluation complains about itself, when those that it makes have given their values. -/
inductive Raises : Visit → Complaint → Prop
  | unbound {budget name scope store} (h : store.lookup? scope name = none) :
      Raises ⟨budget + 1, .ident name, scope, store⟩ (.unbound name)
  | operands {budget op left right scope store a b store' store''}
      (hleft : outcome (evaluate budget left scope) store = (.ok a, store'))
      (hright : outcome (evaluate budget right scope) store' = (.ok b, store''))
      (h : ¬ op.Takes a b) :
      Raises ⟨budget + 1, .binary op left right, scope, store⟩ (.operands op a b)
  | dividend {budget left right scope store n store' store''}
      (hleft : outcome (evaluate budget left scope) store = (.ok (.int n), store'))
      (hright : outcome (evaluate budget right scope) store' = (.ok (.int 0), store'')) :
      Raises ⟨budget + 1, .binary .div left right, scope, store⟩ (.dividend n)
  | operand {budget op operand scope store value store'}
      (hoperand : outcome (evaluate budget operand scope) store = (.ok value, store'))
      (h : ¬ op.Takes value) :
      Raises ⟨budget + 1, .unary op operand, scope, store⟩ (.operand op value)
  | condition {budget cond yes scope store value store'}
      (hcond : outcome (evaluate budget cond scope) store = (.ok value, store'))
      (h : ∀ b, value ≠ .bool b) :
      Raises ⟨budget + 1, .ifThen cond yes, scope, store⟩ (.condition value)
  | conditionElse {budget cond yes no scope store value store'}
      (hcond : outcome (evaluate budget cond scope) store = (.ok value, store'))
      (h : ∀ b, value ≠ .bool b) :
      Raises ⟨budget + 1, .ifThenElse cond yes no, scope, store⟩ (.condition value)
  | callee {budget callee argument scope store value store'}
      (hcallee : outcome (evaluate budget callee scope) store = (.ok value, store'))
      (h : ∀ param body captured, value ≠ .closure param body captured) :
      Raises ⟨budget + 1, .apply callee argument, scope, store⟩ (.callee value)
  | datum {budget value scope store} :
      Raises ⟨budget + 1, .datum value, scope, store⟩ (.datum value)

/-- What an evaluation fails with of itself. -/
inductive Fails : Visit → Fault → Prop
  | spent {expr scope store} : Fails ⟨0, expr, scope, store⟩ .recursionLimit
  | raises {visit : Visit} {complaint : Complaint} (h : visit.Raises complaint) :
      Fails visit complaint.fault

variable {visit part reached : Visit} {complaint : Complaint} {fault : Fault}

/-! ### Failing of itself -/

theorem Raises.result_eq (h : visit.Raises complaint) : visit.result = .error complaint.fault := by
  cases h with
  | @unbound budget name scope store h =>
    refine outcome_bind_eq_error.2 (.inr ⟨store, store, rfl, ?_⟩)
    rw [h]
    rfl
  | operands hleft hright h =>
    refine outcome_bind_eq_error.2 (.inr ⟨_, _, hleft, ?_⟩)
    refine outcome_bind_eq_error.2 (.inr ⟨_, _, hright, ?_⟩)
    rw [Value.binary_of_not_takes h]
    rfl
  | dividend hleft hright =>
    refine outcome_bind_eq_error.2 (.inr ⟨_, _, hleft, ?_⟩)
    refine outcome_bind_eq_error.2 (.inr ⟨_, _, hright, ?_⟩)
    rw [Value.divide_by_zero]
    rfl
  | operand hoperand h =>
    refine outcome_bind_eq_error.2 (.inr ⟨_, _, hoperand, ?_⟩)
    rw [Value.unary_of_not_takes h]
    rfl
  | @condition _ _ _ _ _ value store' hcond h | @conditionElse _ _ _ _ _ _ value store' hcond h =>
    refine outcome_bind_eq_error.2 (.inr ⟨_, _, hcond, ?_⟩)
    have herror := Complaint.outcome_complain (.condition value) store'
    cases value with
    | bool b => exact absurd rfl (h b)
    | unit | int | closure => exact herror
  | @callee _ _ _ _ _ value store' hcallee h =>
    refine outcome_bind_eq_error.2 (.inr ⟨_, _, hcallee, ?_⟩)
    have herror := Complaint.outcome_complain (.callee value) store'
    cases value with
    | closure param body captured => exact absurd rfl (h param body captured)
    | unit | int | bool => exact herror
  | @datum _ value _ store =>
    exact Complaint.outcome_complain (.datum value) store

theorem Fails.result_eq (h : visit.Fails fault) : visit.result = .error fault := by
  cases h with
  | spent => rfl
  | raises h => exact h.result_eq

/-! ### Failing within -/

/-- An evaluation fails with what one that it makes fails with. -/
theorem Makes.result_eq (h : visit.Makes part) (hpart : part.result = .error fault) :
    visit.result = .error fault := by
  cases h with
  | left | operand | defined | bound | cond | condElse | callee =>
    exact outcome_bind_eq_error.2 (.inl hpart)
  | right hleft =>
    refine outcome_bind_eq_error.2 (.inr ⟨_, _, hleft, ?_⟩)
    exact outcome_bind_eq_error.2 (.inl hpart)
  | body hbound => exact outcome_bind_eq_error.2 (.inr ⟨_, _, hbound, hpart⟩)
  | yes hcond | yesElse hcond | no hcond =>
    exact outcome_bind_eq_error.2 (.inr ⟨_, _, hcond, hpart⟩)
  | argument hcallee =>
    refine outcome_bind_eq_error.2 (.inr ⟨_, _, hcallee, ?_⟩)
    exact outcome_bind_eq_error.2 (.inl hpart)
  | called hcallee hargument =>
    refine outcome_bind_eq_error.2 (.inr ⟨_, _, hcallee, ?_⟩)
    exact outcome_bind_eq_error.2 (.inr ⟨_, _, hargument, hpart⟩)

/-- An evaluation that fails and makes none that does fails of itself. -/
theorem fails_or_makes (h : visit.result = .error fault) :
    visit.Fails fault ∨ ∃ part, visit.Makes part ∧ part.result = .error fault := by
  obtain ⟨budget, expr, scope, store⟩ := visit
  cases budget with
  | zero =>
    cases h
    exact .inl .spent
  | succ budget =>
    cases expr with
    | unit | int | bool | fn => cases h
    | ident name =>
      change (outcome (get >>= _) store).1 = _ at h
      rw [outcome_bind_of_ok (outcome_get store)] at h
      cases hlookup : store.lookup? scope name with
      | none =>
        rw [hlookup] at h
        cases h
        exact .inl (.raises (.unbound hlookup))
      | some value =>
        rw [hlookup] at h
        cases h
    | binary op left right =>
      rcases outcome_bind_eq_error.1 h with h | ⟨a, store₁, hleft, h⟩
      · exact .inr ⟨_, .left, h⟩
      rcases outcome_bind_eq_error.1 h with h | ⟨b, store₂, hright, h⟩
      · exact .inr ⟨_, .right hleft, h⟩
      have herror : a.binary op b = .error fault := h
      by_cases htakes : op.Takes a b
      · rcases Value.binary_of_takes htakes with ⟨value, hvalue⟩ | ⟨n, rfl, rfl, rfl⟩
        · rw [hvalue] at herror
          cases herror
        · rw [Value.divide_by_zero] at herror
          obtain rfl := Except.error.inj herror
          exact .inl (.raises (.dividend hleft hright))
      · rw [Value.binary_of_not_takes htakes] at herror
        obtain rfl := Except.error.inj herror
        exact .inl (.raises (.operands hleft hright htakes))
    | unary op operand =>
      rcases outcome_bind_eq_error.1 h with h | ⟨a, store₁, hoperand, h⟩
      · exact .inr ⟨_, .operand, h⟩
      have herror : a.unary op = .error fault := h
      by_cases htakes : op.Takes a
      · obtain ⟨value, hvalue⟩ := Value.unary_of_takes htakes
        rw [hvalue] at herror
        cases herror
      · rw [Value.unary_of_not_takes htakes] at herror
        obtain rfl := Except.error.inj herror
        exact .inl (.raises (.operand hoperand htakes))
    | define name bound =>
      rcases outcome_bind_eq_error.1 h with h | ⟨a, store₁, hbound, h⟩
      · exact .inr ⟨_, .defined, h⟩
      · cases h
    | letIn name bound body =>
      rcases outcome_bind_eq_error.1 h with h | ⟨a, store₁, hbound, h⟩
      · exact .inr ⟨_, .bound, h⟩
      · exact .inr ⟨_, .body hbound, h⟩
    | ifThen cond yes =>
      rcases outcome_bind_eq_error.1 h with h | ⟨a, store₁, hcond, h⟩
      · exact .inr ⟨_, .cond, h⟩
      have herror := Complaint.outcome_complain (.condition a) store₁
      rcases a with _ | _ | (_ | _) | _
      case bool.true => exact .inr ⟨_, .yes hcond, h⟩
      case bool.false => cases h
      all_goals
        obtain rfl := Except.error.inj (herror.symm.trans h)
        exact .inl (.raises (.condition hcond (by simp)))
    | ifThenElse cond yes no =>
      rcases outcome_bind_eq_error.1 h with h | ⟨a, store₁, hcond, h⟩
      · exact .inr ⟨_, .condElse, h⟩
      have herror := Complaint.outcome_complain (.condition a) store₁
      rcases a with _ | _ | (_ | _) | _
      case bool.true => exact .inr ⟨_, .yesElse hcond, h⟩
      case bool.false => exact .inr ⟨_, .no hcond, h⟩
      all_goals
        obtain rfl := Except.error.inj (herror.symm.trans h)
        exact .inl (.raises (.conditionElse hcond (by simp)))
    | apply callee argument =>
      rcases outcome_bind_eq_error.1 h with h | ⟨a, store₁, hcallee, h⟩
      · exact .inr ⟨_, .callee, h⟩
      have herror := Complaint.outcome_complain (.callee a) store₁
      cases a with
      | closure param body captured =>
        rcases outcome_bind_eq_error.1 h with h | ⟨b, store₂, hargument, h⟩
        · exact .inr ⟨_, .argument hcallee, h⟩
        · exact .inr ⟨_, .called hcallee hargument, h⟩
      | unit | int | bool =>
        obtain rfl := Except.error.inj (herror.symm.trans h)
        exact .inl (.raises (.callee hcallee (by simp)))
    | datum value =>
      have herror := Complaint.outcome_complain (.datum value) store
      obtain rfl := Except.error.inj (herror.symm.trans h)
      exact .inl (.raises .datum)

theorem Makes.budget_eq (h : visit.Makes part) : visit.budget = part.budget + 1 := by
  cases h <;> rfl

/-- An evaluation fails exactly if it reaches one that fails of itself, and with its fault. -/
theorem result_eq_error_iff :
    visit.result = .error fault ↔ ∃ reached, visit.Reaches reached ∧ reached.Fails fault := by
  constructor
  · intro h
    induction hbudget : visit.budget generalizing visit with
    | zero =>
      rcases fails_or_makes h with hfails | ⟨part, hmakes, -⟩
      · exact ⟨visit, .refl, hfails⟩
      · have hspent := hmakes.budget_eq
        omega
    | succ budget ih =>
      rcases fails_or_makes h with hfails | ⟨part, hmakes, hpart⟩
      · exact ⟨visit, .refl, hfails⟩
      · have hspent := hmakes.budget_eq
        obtain ⟨reached, hreaches, hfails⟩ := ih hpart (by omega)
        exact ⟨reached, .head hmakes hreaches, hfails⟩
  · rintro ⟨reached, hreaches, hfails⟩
    induction hreaches using Relation.ReflTransGen.head_induction_on with
    | refl => exact hfails.result_eq
    | head hmakes _ ih => exact hmakes.result_eq ih

end Visit
end LetLang
