import LetLang.Store
/-!
# Evaluation

Evaluation is eager and goes from left to right: both operands of every operator, bound
expressions before they are bound, arguments before a call, also if the function ignores them. A
`let` binds in the current scope and a call opens a new scope within the captured one. Bindings
made before a fault remain. Every nested evaluation takes one unit of a budget.
-/
namespace LetLang

/-- Computations on a store; a fault leaves the store as it was when the fault occurred. -/
abbrev Evaluating := ExceptT Fault (StateM Store)

namespace Evaluating

def lift {α : Type} (result : Except Fault α) : Evaluating α :=
  ExceptT.mk (pure result)

/-- Evaluates a closure's body in a new scope within the captured one, which holds the argument
under the parameter's name. -/
def enter (evaluate : Expr → ScopeId → Evaluating Value) (param : Option String) (body : Expr)
    (captured : ScopeId) (argument : Value) : Evaluating Value := do
  let frame ← modifyGet (·.child captured (param.map (·, argument)).toList)
  evaluate body frame

end Evaluating

open Evaluating

/-- The value of an expression in a scope. -/
def evaluate : (budget : Nat) → Expr → ScopeId → Evaluating Value
  | 0, _, _ => throw .recursionLimit
  | budget + 1, expr, scope =>
    match expr with
    | .unit => return .unit
    | .int n => return .int n
    | .bool b => return .bool b
    | .ident name => do
      match (← get).lookup? scope name with
      | some value => return value
      | none => throw (.language (.undefinedIdentifier name))
    | .binary op left right => do
      let left ← evaluate budget left scope
      let right ← evaluate budget right scope
      lift (left.binary op right)
    | .unary op operand => do
      lift ((← evaluate budget operand scope).unary op)
    | .define name bound => do
      let value ← evaluate budget bound scope
      modify (·.bind scope name value)
      return value
    | .letIn name bound body => do
      let value ← evaluate budget bound scope
      modify (·.bind scope name value)
      evaluate budget body scope
    | .ifThen cond yes => do
      match ← evaluate budget cond scope with
      | .bool true => evaluate budget yes scope
      | .bool false => return .unit
      | other => lift (Value.complain (other.describe?.map .conditionMismatch))
    | .ifThenElse cond yes no => do
      match ← evaluate budget cond scope with
      | .bool true => evaluate budget yes scope
      | .bool false => evaluate budget no scope
      | other => lift (Value.complain (other.describe?.map .conditionMismatch))
    | .fn param body => do
      return .closure param body (← modifyGet (·.snapshot scope))
    | .apply callee argument => do
      match ← evaluate budget callee scope with
      | .closure param body captured => do
        let argument ← evaluate budget argument scope
        enter (evaluate budget) param body captured argument
      | other => lift (Value.complain (other.text?.map .notAFunction))
    | .datum value => lift (Value.complain (value.write?.map .notAnExpression))

/-- The number of evaluations that may be nested in each other. -/
def evaluationLimit : Nat := 5000

/-- Applies a value to an argument. -/
def call (budget : Nat) (callee argument : Value) : Evaluating Value :=
  match callee with
  | .closure param body captured => enter (evaluate budget) param body captured argument
  | other => lift (Value.complain (other.text?.map .notAFunction))

end LetLang
