import LetLang.Expr
import LetLang.Fault
/-!
# Values

What expressions evaluate to, and the operators on them. Arithmetic is exact, division cuts
towards zero, and nothing converts between integers and truth values.
-/
namespace LetLang

/-- Names a scope of a store. -/
abbrev ScopeId := Nat

/-- A value. A closure has a parameter, if it takes one, a body, and the scope that its function
literal was evaluated in, as it was then. -/
inductive Value where
  | unit
  | int (n : Int)
  | bool (b : Bool)
  | closure (param : Option String) (body : Expr) (captured : ScopeId)
  deriving DecidableEq, Repr

namespace Value

def typeName : Value → String
  | unit => "Unit"
  | int _ => "Int"
  | bool _ => "Bool"
  | closure _ _ _ => "Closure"

/-- The text of a value; none if it holds a number too long to be written. -/
def text? : Value → Option String
  | unit => some "()"
  | int n => Numeral.text? n
  | bool b => some (if b then "true" else "false")
  | closure param body _ =>
    body.render?.map fun body => "<closure |" ++ param.getD "" ++ "| => " ++ body ++ ">"

/-- The type and the text of a value, for error messages. -/
def describe? (value : Value) : Option String :=
  value.text?.map fun text => value.typeName ++ " " ++ text

/-- The value as a constructor and its arguments; a closure by its text. -/
def write? : Value → Option String
  | unit => some "Unit()"
  | int n => (Numeral.text? n).map fun text => "Int(n=" ++ text ++ ")"
  | bool b => some (if b then "Bool(b=True)" else "Bool(b=False)")
  | value => value.text?

/-- An error about described values, or the fault that one of them cannot be written. -/
def complain {α : Type} (error : Option LanguageError) : Except Fault α :=
  match error with
  | some error => .error (.language error)
  | none => .error .numberTooLong

def binaryMismatch (op : BinaryOp) (left right : Value) : Except Fault Value :=
  complain <|
    match left.describe?, right.describe? with
    | some left, some right => some (.binaryMismatch op left right)
    | _, _ => none

/-- The value of a binary operation. -/
def binary : BinaryOp → Value → Value → Except Fault Value
  | .add, int a, int b => .ok (int (a + b))
  | .sub, int a, int b => .ok (int (a - b))
  | .mul, int a, int b => .ok (int (a * b))
  | .div, int a, int b =>
    if b = 0 then complain ((Numeral.text? a).map .divisionByZero) else .ok (int (a.tdiv b))
  | .eq, int a, int b => .ok (bool (a = b))
  | .lt, int a, int b => .ok (bool (a < b))
  | .gt, int a, int b => .ok (bool (b < a))
  | .eq, bool a, bool b => .ok (bool (a = b))
  | .and, bool a, bool b => .ok (bool (a && b))
  | .or, bool a, bool b => .ok (bool (a || b))
  | op, left, right => binaryMismatch op left right

/-- The value of a unary operation. -/
def unary : UnaryOp → Value → Except Fault Value
  | .negate, int a => .ok (int (-a))
  | .not, bool b => .ok (bool !b)
  | op, operand => complain (operand.describe?.map (.unaryMismatch op))

end Value
end LetLang
