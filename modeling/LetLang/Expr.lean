import LetLang.Operator
import LetLang.Text.Numeral
import LetLang.Text.Quoted
/-!
# Expressions

Syntax trees and their two renderings, a bracketed line and an indented block. A host that builds
trees by hand may leave plain data where an expression belongs; the renderings pass over it.
-/
namespace LetLang

/-- Plain data that is no expression. -/
inductive Datum where
  | none
  | bool (b : Bool)
  | int (n : Int)
  | text (s : String)
  deriving DecidableEq, Repr

namespace Datum

/-- The data as it is printed. -/
def print? : Datum → Option String
  | none => some "None"
  | bool b => some (if b then "True" else "False")
  | int n => Numeral.text? n
  | text s => some s

/-- The data as it is written in a program text. -/
def write? : Datum → Option String
  | text s => some (Text.quoted s)
  | datum => datum.print?

end Datum

/-- An expression. A definition without a body is a `let` that ends its scope; a conditional
without an alternative gives unit when its condition is false. -/
inductive Expr where
  | unit
  | int (n : Int)
  | bool (b : Bool)
  | ident (name : String)
  | binary (op : BinaryOp) (left right : Expr)
  | unary (op : UnaryOp) (operand : Expr)
  | define (name : String) (bound : Expr)
  | letIn (name : String) (bound body : Expr)
  | ifThen (cond yes : Expr)
  | ifThenElse (cond yes no : Expr)
  | fn (param : Option String) (body : Expr)
  | apply (callee argument : Expr)
  | datum (value : Datum)
  deriving DecidableEq, Repr

namespace Expr

def isDatum : Expr → Bool
  | datum _ => true
  | _ => false

/-- The label of a node; none if it holds a number too long to be written. -/
def label? : Expr → Option String
  | unit => some "Unit"
  | int n => (Numeral.text? n).map ("Int " ++ ·)
  | bool b => some (if b then "Bool true" else "Bool false")
  | ident name => some ("Ident " ++ name)
  | binary op _ _ => some op.label
  | unary op _ => some op.label
  | define name _ => some ("Let " ++ name)
  | letIn name _ _ => some ("Let " ++ name)
  | ifThen _ _ => some "If"
  | ifThenElse _ _ _ => some "If"
  | fn param _ => some ("Fn |" ++ param.getD "" ++ "|")
  | apply _ _ => some "Apply"
  | datum value => value.print?

/-- The texts of the children that are expressions, if all of them can be written. -/
def childTexts? : List (Expr × Option String) → Option (List String)
  | [] => some []
  | (child, text) :: rest =>
    if child.isDatum then childTexts? rest
    else
      match text, childTexts? rest with
      | some text, some texts => some (text :: texts)
      | _, _ => none

/-- A node on one line: its label and its children in brackets. -/
def bracketed (label : Option String) (children : List (Expr × Option String)) : Option String :=
  match label, childTexts? children with
  | some label, some texts => some ("[" ++ " ".intercalate (label :: texts) ++ "]")
  | _, _ => none

/-- The expression on one line; none if it holds a number too long to be written. Rendering has no
budget: that a tree may be too deep for the frames of a program to be written is set aside. -/
def render? : Expr → Option String
  | datum value => value.print?
  | unit => bracketed unit.label? []
  | int n => bracketed (int n).label? []
  | bool b => bracketed (bool b).label? []
  | ident name => bracketed (ident name).label? []
  | binary op l r => bracketed (binary op l r).label? [(l, l.render?), (r, r.render?)]
  | unary op x => bracketed (unary op x).label? [(x, x.render?)]
  | define name e => bracketed (define name e).label? [(e, e.render?)]
  | letIn name e b => bracketed (letIn name e b).label? [(e, e.render?), (b, b.render?)]
  | ifThen c y => bracketed (ifThen c y).label? [(c, c.render?), (y, y.render?)]
  | ifThenElse c y n =>
    bracketed (ifThenElse c y n).label? [(c, c.render?), (y, y.render?), (n, n.render?)]
  | fn param b => bracketed (fn param b).label? [(b, b.render?)]
  | apply f a => bracketed (apply f a).label? [(f, f.render?), (a, a.render?)]

/-- The blanks before a line at the given depth. -/
def indent (depth : Nat) : String :=
  String.ofList (List.replicate (4 * depth) ' ')

/-- A node over several lines: its label and, between parentheses, a line or more per child. -/
def block (depth : Nat) (label : Option String) (children : List (Expr × Option String)) :
    Option String :=
  match label, childTexts? children with
  | some label, some [] => some (indent depth ++ label)
  | some label, some texts =>
    some (indent depth ++ label ++ "(\n" ++ ",\n".intercalate texts ++ "\n" ++ indent depth ++ ")")
  | _, _ => none

/-- The expression as an indented block; none if it holds a number too long to be written. As on one
line, the depth of the tree is no obstacle. -/
def display? (depth : Nat) : Expr → Option String
  | datum value => value.print?
  | unit => block depth unit.label? []
  | int n => block depth (int n).label? []
  | bool b => block depth (bool b).label? []
  | ident name => block depth (ident name).label? []
  | binary op l r =>
    block depth (binary op l r).label? [(l, l.display? (depth + 1)), (r, r.display? (depth + 1))]
  | unary op x => block depth (unary op x).label? [(x, x.display? (depth + 1))]
  | define name e => block depth (define name e).label? [(e, e.display? (depth + 1))]
  | letIn name e b =>
    block depth (letIn name e b).label? [(e, e.display? (depth + 1)), (b, b.display? (depth + 1))]
  | ifThen c y =>
    block depth (ifThen c y).label? [(c, c.display? (depth + 1)), (y, y.display? (depth + 1))]
  | ifThenElse c y n =>
    block depth (ifThenElse c y n).label?
      [(c, c.display? (depth + 1)), (y, y.display? (depth + 1)), (n, n.display? (depth + 1))]
  | fn param b => block depth (fn param b).label? [(b, b.display? (depth + 1))]
  | apply f a =>
    block depth (apply f a).label? [(f, f.display? (depth + 1)), (a, a.display? (depth + 1))]

end Expr
end LetLang
