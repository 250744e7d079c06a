import LetLang.Expr.Parser
/-!
# What readers inherit from their parts

Reading an expression is looking at tokens and taking them, over and over. So what holds of the
readers of single tokens, and passes to sequences of readers, holds of reading as a whole.
-/
namespace LetLang

open TokenStream

/-- A property of readers that those of single tokens have, and that passes to sequences. -/
structure Inherited (Q : (α : Type) → Reading α → Prop) : Prop where
  pure {α : Type} (a : α) : Q α (Pure.pure a)
  bind {α β : Type} {x : Reading α} {f : α → Reading β} (hx : Q α x) (hf : ∀ a, Q β (f a)) :
    Q β (x >>= f)
  get : Q TokenStream MonadState.get
  nested : Q Expr (throw .recursionLimit)
  peek : Q Token peek
  advance : Q Token advance
  expect (kinds : List Kind) : Q Token (expect kinds)

namespace Inherited

variable {Q : (α : Type) → Reading α → Prop} {α : Type}

theorem ite (_h : Inherited Q) {x y : Reading α} {c : Prop} [Decidable c] (hx : Q α x)
    (hy : Q α y) : Q α (if c then x else y) := by
  split
  · exact hx
  · exact hy

theorem nextIs (h : Inherited Q) (kinds : List Kind) : Q Bool (nextIs kinds) :=
  h.bind h.peek fun _ => h.pure _

theorem identifier (h : Inherited Q) : Q String Parser.identifier :=
  h.bind (h.expect _) fun _ => h.pure _

theorem operations (h : Inherited Q) {operand : Reading Expr} (hoperand : Q Expr operand)
    (level : Parser.Level) (rounds : List Token) (left : Expr) :
    Q Expr (Parser.operations level operand rounds left) := by
  induction rounds generalizing left with
  | nil =>
    rw [Parser.operations]
    exact h.bind h.peek fun _ => h.pure _
  | cons _ rounds ih =>
    rw [Parser.operations]
    refine h.bind h.peek fun token => ?_
    cases level.operator? token.kind with
    | none => exact h.pure _
    | some op => exact h.bind h.advance fun _ => h.bind hoperand fun right => ih _

theorem separated (h : Inherited Q) {item : Reading α} (hitem : Q α item) (close : Kind)
    (rounds : List Token) : Q (List α) (Parser.separated close item rounds) := by
  induction rounds with
  | nil =>
    rw [Parser.separated.eq_def]
    exact h.bind (h.nextIs _) fun _ => h.ite (h.pure _) <|
      h.bind (h.expect _) fun _ => h.bind hitem fun _ => h.pure _
  | cons _ rounds ih =>
    rw [Parser.separated]
    exact h.bind (h.nextIs _) fun _ => h.ite (h.pure _) <|
      h.bind (h.expect _) fun _ => h.bind hitem fun _ => h.bind ih fun _ => h.pure _

theorem enclosed (h : Inherited Q) {item : Reading α} (hitem : Q α item) (close : Kind)
    {present : Reading Bool} (hpresent : Q Bool present) :
    Q (List α) (Parser.enclosed close present item) :=
  h.bind hpresent fun _ => h.ite
    (h.bind hitem fun _ => h.bind h.get fun _ => h.bind (h.separated hitem close _) fun _ => h.pure _)
    (h.pure _)

theorem calls (h : Inherited Q) {argument : Reading Expr} (hargument : Q Expr argument)
    (rounds : List Token) (callee : Expr) : Q Expr (Parser.calls argument rounds callee) := by
  induction rounds generalizing callee with
  | nil =>
    rw [Parser.calls]
    exact h.bind (h.nextIs _) fun _ => h.pure _
  | cons _ rounds ih =>
    rw [Parser.calls]
    refine h.bind (h.nextIs _) fun _ => h.ite ?_ (h.pure _)
    have hpresent : Q Bool (return !(← TokenStream.nextIs [.rparen])) :=
      h.bind (h.nextIs _) fun _ => h.pure _
    exact h.bind (h.expect _) fun _ => h.bind (h.enclosed hargument _ hpresent) fun _ =>
      h.bind (h.expect _) fun _ => ih _

theorem step (h : Inherited Q) {read : Parser.Production → Reading Expr}
    (hread : ∀ production, Q Expr (read production)) (production : Parser.Production) :
    Q Expr (Parser.step read production) := by
  cases production with
  | expr =>
    refine h.bind h.peek fun token => ?_
    split <;> exact hread _
  | letExpr =>
    refine h.bind (h.expect _) fun _ => h.bind h.identifier fun name => h.bind (h.expect _) fun _ =>
      h.bind (hread _) fun bound => h.bind (h.nextIs _) fun _ => h.ite ?_ (h.pure _)
    exact h.bind h.advance fun _ => h.bind (hread _) fun _ => h.pure _
  | ifExpr =>
    refine h.bind (h.expect _) fun _ => h.bind (hread _) fun cond => h.bind (h.expect _) fun _ =>
      h.bind (hread _) fun yes => h.bind (h.nextIs _) fun _ => h.ite ?_ (h.pure _)
    exact h.bind h.advance fun _ => h.bind (hread _) fun _ => h.pure _
  | fnExpr =>
    exact h.bind (h.expect _) fun _ => h.bind (h.enclosed h.identifier _ (h.nextIs _)) fun params =>
      h.bind (h.expect _) fun _ => h.bind (h.expect _) fun _ => h.bind (hread _) fun _ => h.pure _
  | infixed level =>
    exact h.bind (hread _) fun left => h.bind h.get fun _ => h.operations (hread _) level _ left
  | unary =>
    refine h.bind h.peek fun token => ?_
    cases Parser.unaryOperator? token.kind with
    | none => exact hread _
    | some op => exact h.bind h.advance fun _ => h.bind (hread _) fun _ => h.pure _
  | application =>
    exact h.bind (hread _) fun callee => h.bind h.get fun _ => h.calls (hread _) _ callee
  | argument => exact hread _
  | primary =>
    refine h.bind (h.expect _) fun token => ?_
    cases token.kind with
    | lparen =>
      refine h.bind (h.nextIs _) fun _ => h.ite ?_ ?_
      · exact h.bind (h.pure _) fun _ => h.bind (h.expect _) fun _ => h.pure _
      · exact h.bind (hread _) fun _ => h.bind (h.expect _) fun _ => h.pure _
    | _ => exact h.pure _

/-- By induction on the budget: a production with more of it reads others with less. -/
theorem read (h : Inherited Q) (budget : Nat) (production : Parser.Production) :
    Q Expr (Parser.read budget production) := by
  induction budget generalizing production with
  | zero => exact h.nested
  | succ budget ih => exact h.step ih production

theorem parseNext (h : Inherited Q) (budget : Nat) : Q (Expr × Bool) (Parser.parseNext budget) :=
  h.bind (h.read budget .expr) fun _ => h.bind (h.nextIs _) fun _ => h.pure _

end Inherited
end LetLang
