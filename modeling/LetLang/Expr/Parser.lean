import LetLang.Expr
import LetLang.Token.Stream
/-!
# Reading expressions

Recursive descent with one token of lookahead, by the grammar

    Expr        ::= LetExpr | IfExpr | FnExpr | Logic
    LetExpr     ::= "let" IDENT "=" Expr ("in" Expr)?
    IfExpr      ::= "if" Expr "then" Expr ("else" Expr)?
    FnExpr      ::= "|" (IDENT ("," IDENT)*)? "|" "=>" Expr
    Logic       ::= Comparison (("and" | "or") Comparison)*
    Comparison  ::= Sum (("=" | "<" | ">") Sum)*
    Sum         ::= Product (("+" | "-") Product)*
    Product     ::= Unary (("*" | "/") Unary)*
    Unary       ::= ("not" | "-")? Application
    Application ::= Primary ("(" (Expr ("," Expr)*)? ")")*
    Primary     ::= "(" Expr ")" | "(" ")" | INT | IDENT | "true" | "false"

Binary operators associate to the left; several parameters or arguments stand for nested functions
or calls. Every nested production takes one unit of a budget, and running out of it is a fault.
The loops within a production cost nothing: each round takes a token, so the tokens that are still
to come bound them.
-/
namespace LetLang.Parser

open TokenStream

/-- The levels of binary operators, loosest first. -/
inductive Level where
  | logic | comparison | sum | product
  deriving DecidableEq, Repr

inductive Production where
  | expr
  | letExpr
  | ifExpr
  | fnExpr
  | infixed (level : Level)
  | unary
  | application
  | argument
  | primary
  deriving DecidableEq, Repr

/-- The operators of a level, by the kinds of their tokens. -/
def Level.operator? : Level → Kind → Option BinaryOp
  | logic, .andWord => some .and
  | logic, .orWord => some .or
  | comparison, .eq => some .eq
  | comparison, .lt => some .lt
  | comparison, .gt => some .gt
  | sum, .plus => some .add
  | sum, .minus => some .sub
  | product, .star => some .mul
  | product, .slash => some .div
  | _, _ => none

/-- What stands between the operators of a level. -/
def Level.operand : Level → Production
  | logic => .infixed .comparison
  | comparison => .infixed .sum
  | sum => .infixed .product
  | product => .unary

def unaryOperator? : Kind → Option UnaryOp
  | .notWord => some .not
  | .minus => some .negate
  | _ => none

/-- The kinds that begin a primary expression. -/
def primaryKinds : List Kind :=
  [.lparen, .int, .ident, .trueWord, .falseWord]

/-- A function of several parameters, as nested functions of one. -/
def curried (params : List String) (body : Expr) : Expr :=
  match params with
  | [] => .fn none body
  | params => params.foldr (fun param inner => .fn (some param) inner) body

/-- A call with several arguments, as nested calls with one; without arguments, with unit. -/
def applied (callee : Expr) (arguments : List Expr) : Expr :=
  match arguments with
  | [] => .apply callee .unit
  | arguments => arguments.foldl .apply callee

/-- Operators and operands after `left`, for at most as many rounds as `rounds` has elements. -/
def operations (level : Level) (operand : Reading Expr) :
    (rounds : List Token) → (left : Expr) → Reading Expr
  | [], left => do
    let _ ← peek
    return left
  | _ :: rounds, left => do
    match level.operator? (← peek).kind with
    | some op => do
      let _ ← advance
      let right ← operand
      operations level operand rounds (.binary op left right)
    | none => return left

/-- The items up to the closing token, each after a comma, for at most one more of them than
`rounds` has elements. -/
def separated {α : Type} (close : Kind) (item : Reading α) (rounds : List Token) :
    Reading (List α) := do
  if ← nextIs [close] then return []
  else
    let _ ← expect [.comma, close]
    let first ← item
    match rounds with
    | [] => return [first]
    | _ :: rounds => return first :: (← separated close item rounds)

/-- The items up to the closing token, if there are any. -/
def enclosed {α : Type} (close : Kind) (present : Reading Bool) (item : Reading α) :
    Reading (List α) := do
  if ← present then
    let first ← item
    return first :: (← separated close item (← get).pending)
  else return []

/-- The name of an identifier token. -/
def identifier : Reading String := do
  return (← expect [.ident]).text

/-- Argument lists after `callee`, for at most as many rounds as `rounds` has elements. -/
def calls (argument : Reading Expr) : (rounds : List Token) → (callee : Expr) → Reading Expr
  | [], callee => do
    let _ ← nextIs [.lparen]
    return callee
  | _ :: rounds, callee => do
    if ← nextIs [.lparen] then
      let _ ← expect [.lparen]
      let arguments ← enclosed .rparen (return !(← nextIs [.rparen])) argument
      let _ ← expect [.rparen]
      calls argument rounds (applied callee arguments)
    else return callee

/-- One production, given a reader for the productions nested in it. -/
def step (read : Production → Reading Expr) : Production → Reading Expr
  | .expr => do
    match (← peek).kind with
    | .letWord => read .letExpr
    | .ifWord => read .ifExpr
    | .vbar => read .fnExpr
    | _ => read (.infixed .logic)
  | .letExpr => do
    let _ ← expect [.letWord]
    let name ← identifier
    let _ ← expect [.eq]
    let bound ← read .expr
    if ← nextIs [.inWord] then
      let _ ← advance
      return .letIn name bound (← read .expr)
    else return .define name bound
  | .ifExpr => do
    let _ ← expect [.ifWord]
    let cond ← read .expr
    let _ ← expect [.thenWord]
    let yes ← read .expr
    if ← nextIs [.elseWord] then
      let _ ← advance
      return .ifThenElse cond yes (← read .expr)
    else return .ifThen cond yes
  | .fnExpr => do
    let _ ← expect [.vbar]
    let params ← enclosed .vbar (nextIs [.ident]) identifier
    let _ ← expect [.vbar]
    let _ ← expect [.arrow]
    return curried params (← read .expr)
  | .infixed level => do
    let left ← read level.operand
    operations level (read level.operand) (← get).pending left
  | .unary => do
    match unaryOperator? (← peek).kind with
    | some op => do
      let _ ← advance
      return .unary op (← read .application)
    | none => read .application
  | .application => do
    let callee ← read .primary
    calls (read .argument) (← get).pending callee
  | .argument => read .expr
  | .primary => do
    let token ← expect primaryKinds
    match token.kind with
    | .lparen => do
      let inner ← if ← nextIs [.rparen] then pure .unit else read .expr
      let _ ← expect [.rparen]
      return inner
    | .int => return .int token.number
    | .ident => return .ident token.text
    | kind => return .bool (kind = .trueWord)

/-- Reads a production within a budget of nested productions. -/
def read : (budget : Nat) → Production → Reading Expr
  | 0, _ => throw .recursionLimit
  | budget + 1, production => step (read budget) production

/-- The number of productions that may be nested in each other. -/
def depthLimit : Nat := 10000

/-- Reads the next expression. -/
def parse (budget : Nat) : Reading Expr :=
  read budget .expr

/-- Reads the next expression, and tells whether more follows. -/
def parseNext (budget : Nat) : Reading (Expr × Bool) := do
  let expr ← parse budget
  return (expr, !(← atEnd))

end LetLang.Parser
