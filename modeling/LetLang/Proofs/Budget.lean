import LetLang.Expr.Parser
import LetLang.Proofs.Computation
/-!
# Budgets

An evaluation that does not run out of its budget gives the same with every larger one, so that
the budget only decides whether there is a result, never which. The same holds for reading.
-/
namespace LetLang

/-! ### Evaluation -/

section Evaluation

open Evaluating

theorem enter_prolongs {short long : Expr → ScopeId → Evaluating Value}
    (h : ∀ expr scope, Prolongs (long expr scope) (short expr scope))
    (param : Option String) (body : Expr) (captured : ScopeId) (argument : Value) :
    Prolongs (enter long param body captured argument)
      (enter short param body captured argument) :=
  (Prolongs.refl _).bind fun frame => h body frame

theorem evaluate_prolongs {budget larger : Nat} (h : budget ≤ larger) (expr : Expr)
    (scope : ScopeId) : Prolongs (evaluate larger expr scope) (evaluate budget expr scope) := by
  induction budget generalizing larger expr scope with
  | zero => exact prolongs_ranOut _
  | succ budget ih =>
    obtain ⟨larger, rfl⟩ : ∃ n, larger = n + 1 := ⟨larger - 1, by omega⟩
    have ih := fun expr scope => ih (Nat.le_of_succ_le_succ h) expr scope
    cases expr with
    | unit | int | bool | ident | fn | datum => exact Prolongs.refl _
    | binary op left right =>
      exact (ih left scope).bind fun a => (ih right scope).bind fun b => Prolongs.refl _
    | unary op operand => exact (ih operand scope).bind fun a => Prolongs.refl _
    | define name bound => exact (ih bound scope).bind fun a => Prolongs.refl _
    | letIn name bound body =>
      exact (ih bound scope).bind fun a => (Prolongs.refl _).bind fun _ => ih body scope
    | ifThen cond yes =>
      refine (ih cond scope).bind fun value => ?_
      rcases value with _ | _ | (_ | _) | _
      case bool.true => exact ih yes scope
      all_goals exact Prolongs.refl _
    | ifThenElse cond yes no =>
      refine (ih cond scope).bind fun value => ?_
      rcases value with _ | _ | (_ | _) | _
      case bool.true => exact ih yes scope
      case bool.false => exact ih no scope
      all_goals exact Prolongs.refl _
    | apply callee argument =>
      refine (ih callee scope).bind fun value => ?_
      cases value with
      | closure param body captured =>
        exact (ih argument scope).bind fun a => enter_prolongs ih param body captured a
      | unit | int | bool => exact Prolongs.refl _

theorem call_prolongs {budget larger : Nat} (h : budget ≤ larger) (callee argument : Value) :
    Prolongs (call larger callee argument) (call budget callee argument) := by
  cases callee with
  | closure param body captured =>
    exact enter_prolongs (evaluate_prolongs h) param body captured argument
  | unit | int | bool => exact Prolongs.refl _

end Evaluation

/-! ### Reading -/

namespace Parser

open TokenStream

theorem operations_prolongs {short long : Reading Expr} (h : Prolongs long short) (level : Level)
    (rounds : List Token) (left : Expr) :
    Prolongs (operations level long rounds left) (operations level short rounds left) := by
  induction rounds generalizing left with
  | nil =>
    rw [operations, operations]
    exact Prolongs.refl _
  | cons _ rounds ih =>
    rw [operations, operations]
    refine (Prolongs.refl _).bind fun token => ?_
    cases level.operator? token.kind with
    | none => exact Prolongs.refl _
    | some op => exact (Prolongs.refl _).bind fun _ => h.bind fun right => ih _

theorem separated_prolongs {α : Type} {short long : Reading α} (h : Prolongs long short)
    (close : Kind) (rounds : List Token) :
    Prolongs (separated close long rounds) (separated close short rounds) := by
  induction rounds with
  | nil =>
    rw [separated.eq_def, separated.eq_def]
    exact (Prolongs.refl _).bind fun _ => (Prolongs.refl _).ite <|
      (Prolongs.refl _).bind fun _ => h.bind fun _ => Prolongs.refl _
  | cons _ rounds ih =>
    rw [separated, separated]
    exact (Prolongs.refl _).bind fun _ => (Prolongs.refl _).ite <|
      (Prolongs.refl _).bind fun _ => h.bind fun _ => ih.bind fun _ => Prolongs.refl _

theorem enclosed_prolongs {α : Type} {short long : Reading α} (h : Prolongs long short)
    (close : Kind) (present : Reading Bool) :
    Prolongs (enclosed close present long) (enclosed close present short) :=
  (Prolongs.refl _).bind fun _ => Prolongs.ite
    (h.bind fun _ => (Prolongs.refl _).bind fun stream =>
      (separated_prolongs h close stream.pending).bind fun _ => Prolongs.refl _)
    (Prolongs.refl _)

theorem calls_prolongs {short long : Reading Expr} (h : Prolongs long short)
    (rounds : List Token) (callee : Expr) :
    Prolongs (calls long rounds callee) (calls short rounds callee) := by
  induction rounds generalizing callee with
  | nil =>
    rw [calls, calls]
    exact Prolongs.refl _
  | cons _ rounds ih =>
    rw [calls, calls]
    refine (Prolongs.refl _).bind fun _ => Prolongs.ite ?_ (Prolongs.refl _)
    refine (Prolongs.refl _).bind fun _ => (enclosed_prolongs h _ _).bind fun _ => ?_
    exact (Prolongs.refl _).bind fun _ => ih _

theorem step_prolongs {short long : Production → Reading Expr}
    (h : ∀ production, Prolongs (long production) (short production)) (production : Production) :
    Prolongs (step long production) (step short production) := by
  cases production with
  | expr =>
    refine (Prolongs.refl _).bind fun token => ?_
    split <;> exact h _
  | letExpr =>
    refine (Prolongs.refl _).bind fun _ => (Prolongs.refl _).bind fun _ =>
      (Prolongs.refl _).bind fun _ => (h _).bind fun _ => (Prolongs.refl _).bind fun _ =>
        Prolongs.ite ?_ (Prolongs.refl _)
    exact (Prolongs.refl _).bind fun _ => (h _).bind fun _ => Prolongs.refl _
  | ifExpr =>
    refine (Prolongs.refl _).bind fun _ => (h _).bind fun _ => (Prolongs.refl _).bind fun _ =>
      (h _).bind fun _ => (Prolongs.refl _).bind fun _ => Prolongs.ite ?_ (Prolongs.refl _)
    exact (Prolongs.refl _).bind fun _ => (h _).bind fun _ => Prolongs.refl _
  | fnExpr =>
    exact (Prolongs.refl _).bind fun _ => (Prolongs.refl _).bind fun _ =>
      (Prolongs.refl _).bind fun _ => (Prolongs.refl _).bind fun _ =>
        (h _).bind fun _ => Prolongs.refl _
  | infixed level =>
    exact (h _).bind fun _ => (Prolongs.refl _).bind fun _ => operations_prolongs (h _) _ _ _
  | unary =>
    refine (Prolongs.refl _).bind fun token => ?_
    cases unaryOperator? token.kind with
    | none => exact h _
    | some op => exact (Prolongs.refl _).bind fun _ => (h _).bind fun _ => Prolongs.refl _
  | application =>
    exact (h _).bind fun _ => (Prolongs.refl _).bind fun _ => calls_prolongs (h _) _ _
  | argument => exact h _
  | primary =>
    refine (Prolongs.refl _).bind fun token => ?_
    cases token.kind with
    | lparen =>
      refine (Prolongs.refl _).bind fun _ => (Prolongs.refl _).ite ?_
      exact (h _).bind fun _ => Prolongs.refl _
    | _ => exact Prolongs.refl _

theorem read_prolongs {budget larger : Nat} (h : budget ≤ larger) (production : Production) :
    Prolongs (read larger production) (read budget production) := by
  induction budget generalizing larger production with
  | zero => exact prolongs_ranOut _
  | succ budget ih =>
    obtain ⟨larger, rfl⟩ : ∃ n, larger = n + 1 := ⟨larger - 1, by omega⟩
    exact step_prolongs (ih (Nat.le_of_succ_le_succ h)) production

end Parser

end LetLang
