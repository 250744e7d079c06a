/-!
# Operators

The binary and unary operators with their source texts and the labels of their nodes in trees.
-/
namespace LetLang

inductive BinaryOp where
  | add | sub | mul | div | eq | lt | gt | and | or
  deriving DecidableEq, Repr

inductive UnaryOp where
  | not | negate
  deriving DecidableEq, Repr

def BinaryOp.text : BinaryOp → String
  | add => "+" | sub => "-" | mul => "*" | div => "/"
  | eq => "=" | lt => "<" | gt => ">" | and => "and" | or => "or"

def BinaryOp.label : BinaryOp → String
  | add => "Add" | sub => "Sub" | mul => "Mul" | div => "Div"
  | eq => "Eq" | lt => "Lt" | gt => "Gt" | and => "And" | or => "Or"

def UnaryOp.text : UnaryOp → String
  | not => "not" | negate => "-"

def UnaryOp.label : UnaryOp → String
  | not => "Not" | negate => "Negate"

end LetLang
