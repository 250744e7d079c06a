import Mathlib.Order.Bounds.Defs
import LetLang.Proofs.Trees
/-!
# Functions within functions

How many function literals are within each other in a tree: as many as stand on one path from its
root downwards, at most.
-/
namespace LetLang

namespace Expr

def isFunction : Expr → Bool
  | fn _ _ => true
  | _ => false

/-- A path in a tree, from the root of the tree downwards to any of its nodes. -/
inductive Path : Expr → List Expr → Prop
  | root (expr : Expr) : Path expr [expr]
  | down {expr child : Expr} {path : List Expr} (h : child ∈ expr.children)
      (rest : Path child path) : Path expr (expr :: path)

/-- The number of function literals that are within each other, at most. -/
def nesting : Expr → Nat
  | unit | int _ | bool _ | ident _ | datum _ => 0
  | unary _ operand => operand.nesting
  | define _ bound => bound.nesting
  | fn _ body => body.nesting + 1
  | binary _ left right => max left.nesting right.nesting
  | letIn _ bound body => max bound.nesting body.nesting
  | ifThen cond yes => max cond.nesting yes.nesting
  | apply callee argument => max callee.nesting argument.nesting
  | ifThenElse cond yes no => max cond.nesting (max yes.nesting no.nesting)

/-- The function literals of a node itself: one or none. -/
def literals (expr : Expr) : Nat :=
  [expr].countP isFunction

theorem nesting_child_le {expr child : Expr} (h : child ∈ expr.children) :
    child.nesting + expr.literals ≤ expr.nesting := by
  cases expr <;>
    simp only [children, List.mem_cons, List.not_mem_nil, or_false] at h <;>
    simp only [nesting, literals, isFunction, List.countP_cons, List.countP_nil] <;>
    grind

/-- Below a node the most function literals are within each other below one of its children. -/
theorem exists_deepest_child (expr : Expr) (h : expr.children ≠ []) :
    ∃ child ∈ expr.children, child.nesting + expr.literals = expr.nesting := by
  cases expr <;>
    simp only [children, ne_eq, reduceCtorEq, not_true_eq_false, not_false_eq_true] at h <;>
    simp only [children, nesting, literals, isFunction, List.countP_cons, List.countP_nil,
      List.mem_cons, List.not_mem_nil, or_false] <;>
    grind

theorem nesting_of_no_children {expr : Expr} (h : expr.children = []) :
    expr.nesting = expr.literals := by
  cases expr with
  | unit | int | bool | ident | datum => rfl
  | unary | define | fn | binary | letIn | ifThen | apply | ifThenElse => cases h

theorem countP_cons_eq (expr : Expr) (path : List Expr) :
    (expr :: path).countP isFunction = path.countP isFunction + expr.literals := by
  simp [literals, List.countP_cons]

theorem Path.countP_le {expr : Expr} {path : List Expr} (h : expr.Path path) :
    path.countP isFunction ≤ expr.nesting := by
  induction h with
  | root expr =>
    by_cases hchildren : expr.children = []
    · exact Nat.le_of_eq (nesting_of_no_children hchildren).symm
    · obtain ⟨child, -, hnesting⟩ := exists_deepest_child expr hchildren
      exact hnesting ▸ Nat.le_add_left _ _
  | down hchild _ ih =>
    have hle := nesting_child_le hchild
    rw [countP_cons_eq]
    omega

theorem exists_path (expr : Expr) :
    ∃ path, expr.Path path ∧ path.countP isFunction = expr.nesting := by
  induction expr using children_induction with
  | step expr ih =>
    by_cases hchildren : expr.children = []
    · exact ⟨[expr], .root expr, (nesting_of_no_children hchildren).symm⟩
    · obtain ⟨child, hchild, hnesting⟩ := exists_deepest_child expr hchildren
      obtain ⟨path, hpath, hcount⟩ := ih child hchild
      exact ⟨expr :: path, .down hchild hpath, by rw [countP_cons_eq, hcount, hnesting]⟩

end Expr

end LetLang
