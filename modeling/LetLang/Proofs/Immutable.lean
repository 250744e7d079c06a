import LetLang.Proofs.Texts
/-!
# Evaluation with immutable scopes

A second semantics of expressions, without a store. Scopes are lists of bindings and enclose each
other in a list, innermost first. A closure holds the scopes that its function literal was
evaluated in, by value. A `let` gives a new innermost scope, which later expressions are evaluated
in, also after a fault. A call evaluates the body in a scope of its own and then drops that scope.
-/
namespace LetLang.Immutable

/-- A value. A closure has the scopes around its function literal, innermost first, as pairs of
names and values. -/
inductive Value where
  | unit
  | int (n : Int)
  | bool (b : Bool)
  | closure (param : Option String) (body : Expr) (captured : List (List (String × Value)))

/-- The bindings of one scope, the newest first. -/
abbrev Frame := List (String × Value)

namespace Value

/-- What operators and messages see of a value: everything but what a closure has captured. -/
def face : Value → LetLang.Value
  | unit => .unit
  | int n => .int n
  | bool b => .bool b
  | closure param body _ => .closure param body 0

/-- The value with a given face that has captured nothing. -/
def ofFace : LetLang.Value → Value
  | .unit => unit
  | .int n => int n
  | .bool b => bool b
  | .closure param body _ => closure param body []

def binary (op : BinaryOp) (left right : Value) : Except Fault Value :=
  (left.face.binary op right.face).map ofFace

def unary (op : UnaryOp) (operand : Value) : Except Fault Value :=
  (operand.face.unary op).map ofFace

end Value

/-- Computations on the innermost scope; a fault leaves it as it was when the fault occurred. -/
abbrev Evaluating := ExceptT Fault (StateM Frame)

def lift {α : Type} (result : Except Fault α) : Evaluating α :=
  ExceptT.mk (pure result)

/-- The innermost of the scopes that binds a name decides. -/
def lookup? (scopes : List Frame) (name : String) : Option Value :=
  scopes.findSome? (·.lookup name)

theorem lookup?_cons (frame : Frame) (scopes : List Frame) (name : String) :
    lookup? (frame :: scopes) name = (frame.lookup name).or (lookup? scopes name) := by
  unfold lookup?
  rw [List.findSome?_cons]
  cases frame.lookup name <;> rfl

/-- Evaluates in a scope of its own, which is dropped afterwards. -/
def within {α : Type} (frame : Frame) (x : Evaluating α) : Evaluating α :=
  lift (outcome x frame).1

/-- The value of an expression; `outer` are the scopes around the innermost one. -/
def evaluate : (budget : Nat) → Expr → (outer : List Frame) → Evaluating Value
  | 0, _, _ => throw .recursionLimit
  | budget + 1, expr, outer =>
    match expr with
    | .unit => return .unit
    | .int n => return .int n
    | .bool b => return .bool b
    | .ident name => do
      match lookup? ((← get) :: outer) name with
      | some value => return value
      | none => throw (.language (.undefinedIdentifier name))
    | .binary op left right => do
      let left ← evaluate budget left outer
      let right ← evaluate budget right outer
      lift (left.binary op right)
    | .unary op operand => do
      lift ((← evaluate budget operand outer).unary op)
    | .define name bound => do
      let value ← evaluate budget bound outer
      modify ((name, value) :: ·)
      return value
    | .letIn name bound body => do
      let value ← evaluate budget bound outer
      modify ((name, value) :: ·)
      evaluate budget body outer
    | .ifThen cond yes => do
      match ← evaluate budget cond outer with
      | .bool true => evaluate budget yes outer
      | .bool false => return .unit
      | other => lift (Value.complain (other.face.describe?.map .conditionMismatch))
    | .ifThenElse cond yes no => do
      match ← evaluate budget cond outer with
      | .bool true => evaluate budget yes outer
      | .bool false => evaluate budget no outer
      | other => lift (Value.complain (other.face.describe?.map .conditionMismatch))
    | .fn param body => do
      return .closure param body ((← get) :: outer)
    | .apply callee argument => do
      match ← evaluate budget callee outer with
      | .closure param body captured => do
        let argument ← evaluate budget argument outer
        within (param.map (·, argument)).toList (evaluate budget body captured)
      | other => lift (Value.complain (other.face.text?.map .notAFunction))
    | .datum value => lift (Value.complain (value.write?.map .notAnExpression))

/-- Applies a value to an argument. -/
def call (budget : Nat) (callee argument : Value) : Evaluating Value :=
  match callee with
  | .closure param body captured =>
    within (param.map (·, argument)).toList (evaluate budget body captured)
  | other => lift (Value.complain (other.face.text?.map .notAFunction))

/-- The values of the expressions of a text. -/
def interpret (limits : Limits) (text : String) : Evaluating (List Value) :=
  let read := Program.expressions limits.parsing text
  inOrder (evaluate limits.evaluation · []) read.2 read.1

/-- The expressions that are evaluated when texts are interpreted one after the other, each in the
scope that the one before has left. -/
def session (limits : Limits) : List String → Frame → List (Step Frame Value)
  | [], _ => []
  | text :: texts, frame =>
    steps (evaluate limits.evaluation · []) (Program.expressions limits.parsing text).1 frame ++
      session limits texts (outcome (interpret limits text) frame).2

end LetLang.Immutable
