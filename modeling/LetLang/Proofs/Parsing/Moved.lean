import LetLang.Expr.Parser
import LetLang.Proofs.Lexing
import LetLang.Proofs.Stream
/-!
# Reading does not depend on places

Where the tokens of a stream stand in their source makes no difference to what is read from it,
but for the places that its errors name.
-/
namespace LetLang

open TokenStream

variable {α β γ δ : Type}

/-- The second stream holds the tokens of the first, at the places in its own source that `place`
gives for theirs, and what ends them. -/
def Moved (place : Nat → Nat) (source : String) (s s' : TokenStream) : Prop :=
  s'.view =
    (s.pending.map (Token.placed place), s.feed.ending.map (Fault.placed place source), source)

/-- Two outcomes that agree but for places: related results and moved streams, or one fault. -/
inductive MovedOutcome (place : Nat → Nat) (source : String) (R : α → β → Prop) :
    Except Fault α × TokenStream → Except Fault β × TokenStream → Prop
  | ok {a b s s'} (hresult : R a b) (hstream : Moved place source s s') :
      MovedOutcome place source R (.ok a, s) (.ok b, s')
  | error {fault s s'} :
      MovedOutcome place source R (.error fault, s) (.error (fault.placed place source), s')

/-- From moved streams the two readers have outcomes that agree but for places. -/
def Alike (place : Nat → Nat) (source : String) (R : α → β → Prop) (x : Reading α)
    (y : Reading β) : Prop :=
  ∀ s s', Moved place source s s' → MovedOutcome place source R (outcome x s) (outcome y s')

namespace Alike

variable {place : Nat → Nat} {source : String} {R : α → β → Prop}

theorem pure {a : α} {b : β} (h : R a b) :
    Alike place source R (Pure.pure a) (Pure.pure b) :=
  fun _ _ hmoved => .ok h hmoved

theorem bind {Q : γ → δ → Prop} {x : Reading α} {y : Reading β} {f : α → Reading γ}
    {g : β → Reading δ} (hxy : Alike place source R x y)
    (hfg : ∀ a b, R a b → Alike place source Q (f a) (g b)) :
    Alike place source Q (x >>= f) (y >>= g) := by
  intro s s' hmoved
  have hfirst := hxy s s' hmoved
  rw [outcome_bind, outcome_bind]
  generalize outcome x s = first at hfirst ⊢
  generalize outcome y s' = first' at hfirst ⊢
  cases hfirst with
  | ok hresult hstream => exact hfg _ _ hresult _ _ hstream
  | error => exact .error

theorem ite {x x' : Reading α} {y y' : Reading β} {c : Prop} [Decidable c]
    (h : Alike place source R x y) (h' : Alike place source R x' y') :
    Alike place source R (if c then x else x') (if c then y else y') := by
  split
  · exact h
  · exact h'

theorem get : Alike place source (Moved place source) (MonadState.get : Reading TokenStream)
    (MonadState.get : Reading TokenStream) :=
  fun _ _ hmoved => .ok hmoved hmoved

end Alike

/-! ### Looking and taking -/

section Tokens

variable {place : Nat → Nat} {source : String}

theorem Moved.pending_eq {s s' : TokenStream} (h : Moved place source s s') :
    s'.pending = s.pending.map (Token.placed place) :=
  congrArg (·.1) h

theorem Moved.ending_eq {s s' : TokenStream} (h : Moved place source s s') :
    s'.feed.ending = s.feed.ending.map (Fault.placed place source) :=
  congrArg (·.2.1) h

theorem Moved.source_eq {s s' : TokenStream} (h : Moved place source s s') : s'.source = source :=
  congrArg (·.2.2) h

theorem Moved.length_eq {s s' : TokenStream} (h : Moved place source s s') :
    s'.pending.length = s.pending.length := by
  rw [h.pending_eq, List.length_map]

/-- What ends a stream ends a moved one, also if nothing does. -/
theorem moved_getD_exhausted (ending : Option Fault) :
    (ending.map (Fault.placed place source)).getD .exhausted =
      (ending.getD .exhausted).placed place source := by
  cases ending <;> rfl

/-- A reader that gives the next token and leaves less to come gives the moved token. -/
theorem alike_token {x : Reading Token} (leave : Token → List Token → List Token)
    (hleave : ∀ token rest, (leave token rest).map (Token.placed place) =
      leave (token.placed place) (rest.map (Token.placed place)))
    (hcons : ∀ {s token rest}, s.pending = token :: rest → ∃ s', outcome x s = (.ok token, s') ∧
      s'.view = (leave token rest, s.feed.ending, s.source))
    (hnil : ∀ {s : TokenStream}, s.pending = [] →
      ∃ s', outcome x s = (.error (s.feed.ending.getD .exhausted), s')) :
    Alike place source (fun token token' => token' = token.placed place) x x := by
  intro s s' hmoved
  have hpending := hmoved.pending_eq
  cases hs : s.pending with
  | nil =>
    rw [hs] at hpending
    obtain ⟨t, ht⟩ := hnil hs
    obtain ⟨t', ht'⟩ := hnil hpending
    rw [ht, ht', hmoved.ending_eq, moved_getD_exhausted]
    exact .error
  | cons token rest =>
    rw [hs] at hpending
    obtain ⟨t, ht, hview⟩ := hcons hs
    obtain ⟨t', ht', hview'⟩ := hcons hpending
    rw [ht, ht']
    refine .ok rfl ?_
    simp only [view, Prod.mk.injEq] at hview hview'
    rw [Moved, view, hview.1, hview.2.1, hview'.1, hview'.2.1, hview'.2.2, hmoved.ending_eq,
      hmoved.source_eq, hleave]

theorem alike_peek :
    Alike place source (fun token token' => token' = token.placed place) peek peek := by
  refine alike_token List.cons (fun _ _ => rfl) ?_ outcome_peek_of_nil
  intro s token rest h
  obtain ⟨s', hpeek, hview⟩ := outcome_peek_of_cons h
  exact ⟨s', hpeek, by rw [hview, view, h]⟩

theorem alike_advance :
    Alike place source (fun token token' => token' = token.placed place) advance advance := by
  refine alike_token (fun token rest => if token.kind = .eof then token :: rest else rest)
    ?_ exists_outcome_advance ?_
  · intro token rest
    by_cases hkind : token.kind = .eof <;> simp [Token.placed, hkind]
  · intro s h
    obtain ⟨s', hpeek⟩ := outcome_peek_of_nil h
    exact ⟨s', outcome_bind_of_error hpeek _⟩

theorem alike_expect (kinds : List Kind) :
    Alike place source (fun token token' => token' = token.placed place) (expect kinds)
      (expect kinds) := by
  refine alike_peek.bind ?_
  rintro token _ rfl
  refine Alike.ite alike_advance (Alike.get.bind ?_)
  intro s s' hmoved _ _ _
  rw [hmoved.source_eq]
  exact .error

theorem alike_nextIs (kinds : List Kind) :
    Alike place source Eq (nextIs kinds) (nextIs kinds) := by
  refine alike_peek.bind ?_
  rintro token _ rfl
  exact .pure rfl

end Tokens

/-! ### Expressions -/

namespace Parser

variable {place : Nat → Nat} {source : String}

theorem alike_identifier : Alike place source Eq identifier identifier := by
  refine (alike_expect _).bind ?_
  rintro token _ rfl
  exact .pure rfl

theorem alike_operations {operand : Reading Expr} (h : Alike place source Eq operand operand)
    (level : Level) {rounds rounds' : List Token} (hrounds : rounds'.length = rounds.length)
    (left : Expr) :
    Alike place source Eq (operations level operand rounds left)
      (operations level operand rounds' left) := by
  induction rounds generalizing rounds' left with
  | nil =>
    obtain rfl := List.length_eq_zero_iff.1 hrounds
    rw [operations]
    exact alike_peek.bind fun _ _ _ => .pure rfl
  | cons _ rounds ih =>
    obtain ⟨_, rounds', rfl⟩ := List.exists_cons_of_length_eq_add_one hrounds
    rw [operations, operations]
    refine alike_peek.bind ?_
    rintro token _ rfl
    rw [show (token.placed place).kind = token.kind from rfl]
    cases level.operator? token.kind with
    | none => exact .pure rfl
    | some op =>
      refine alike_advance.bind fun _ _ _ => h.bind ?_
      rintro right _ rfl
      exact ih (Nat.succ.inj hrounds) _

theorem alike_separated {item : Reading α} (h : Alike place source Eq item item) (close : Kind)
    {rounds rounds' : List Token} (hrounds : rounds'.length = rounds.length) :
    Alike place source Eq (separated close item rounds) (separated close item rounds') := by
  induction rounds generalizing rounds' with
  | nil =>
    obtain rfl := List.length_eq_zero_iff.1 hrounds
    rw [separated.eq_def]
    refine (alike_nextIs _).bind ?_
    rintro closed _ rfl
    refine Alike.ite (.pure rfl) ((alike_expect _).bind fun _ _ _ => h.bind ?_)
    rintro first _ rfl
    exact .pure rfl
  | cons _ rounds ih =>
    obtain ⟨_, rounds', rfl⟩ := List.exists_cons_of_length_eq_add_one hrounds
    rw [separated, separated]
    refine (alike_nextIs _).bind ?_
    rintro closed _ rfl
    refine Alike.ite (.pure rfl) ((alike_expect _).bind fun _ _ _ => h.bind ?_)
    rintro first _ rfl
    refine (ih (Nat.succ.inj hrounds)).bind ?_
    rintro others _ rfl
    exact .pure rfl

theorem alike_enclosed {item : Reading α} (h : Alike place source Eq item item) (close : Kind)
    {present : Reading Bool} (hpresent : Alike place source Eq present present) :
    Alike place source Eq (enclosed close present item) (enclosed close present item) := by
  refine hpresent.bind ?_
  rintro answer _ rfl
  refine Alike.ite (h.bind ?_) (.pure rfl)
  rintro first _ rfl
  refine Alike.get.bind fun s s' hmoved => ?_
  refine (alike_separated h close hmoved.length_eq).bind ?_
  rintro others _ rfl
  exact .pure rfl

theorem alike_calls {argument : Reading Expr} (h : Alike place source Eq argument argument)
    {rounds rounds' : List Token} (hrounds : rounds'.length = rounds.length) (callee : Expr) :
    Alike place source Eq (calls argument rounds callee) (calls argument rounds' callee) := by
  induction rounds generalizing rounds' callee with
  | nil =>
    obtain rfl := List.length_eq_zero_iff.1 hrounds
    rw [calls]
    exact (alike_nextIs _).bind fun _ _ _ => .pure rfl
  | cons _ rounds ih =>
    obtain ⟨_, rounds', rfl⟩ := List.exists_cons_of_length_eq_add_one hrounds
    rw [calls, calls]
    refine (alike_nextIs _).bind ?_
    rintro answer _ rfl
    refine Alike.ite ((alike_expect _).bind fun _ _ _ => ?_) (.pure rfl)
    have hpresent : Alike place source Eq (return !(← nextIs [.rparen]))
        (return !(← nextIs [.rparen])) := by
      refine (alike_nextIs _).bind ?_
      rintro answer _ rfl
      exact .pure rfl
    refine (alike_enclosed h _ hpresent).bind ?_
    rintro arguments _ rfl
    exact (alike_expect _).bind fun _ _ _ => ih (Nat.succ.inj hrounds) _

theorem alike_step {read : Production → Reading Expr}
    (h : ∀ production, Alike place source Eq (read production) (read production))
    (production : Production) :
    Alike place source Eq (step read production) (step read production) := by
  cases production with
  | expr =>
    refine alike_peek.bind ?_
    rintro token _ rfl
    rw [show (token.placed place).kind = token.kind from rfl]
    split <;> exact h _
  | letExpr =>
    refine (alike_expect _).bind fun _ _ _ => alike_identifier.bind ?_
    rintro name _ rfl
    refine (alike_expect _).bind fun _ _ _ => (h _).bind ?_
    rintro bound _ rfl
    refine (alike_nextIs _).bind ?_
    rintro answer _ rfl
    refine Alike.ite (alike_advance.bind fun _ _ _ => (h _).bind ?_) (.pure rfl)
    rintro body _ rfl
    exact .pure rfl
  | ifExpr =>
    refine (alike_expect _).bind fun _ _ _ => (h _).bind ?_
    rintro cond _ rfl
    refine (alike_expect _).bind fun _ _ _ => (h _).bind ?_
    rintro yes _ rfl
    refine (alike_nextIs _).bind ?_
    rintro answer _ rfl
    refine Alike.ite (alike_advance.bind fun _ _ _ => (h _).bind ?_) (.pure rfl)
    rintro no _ rfl
    exact .pure rfl
  | fnExpr =>
    refine (alike_expect _).bind fun _ _ _ => ?_
    refine (alike_enclosed alike_identifier _ (alike_nextIs _)).bind ?_
    rintro params _ rfl
    refine (alike_expect _).bind fun _ _ _ => (alike_expect _).bind fun _ _ _ => (h _).bind ?_
    rintro body _ rfl
    exact .pure rfl
  | infixed level =>
    refine (h _).bind ?_
    rintro left _ rfl
    exact Alike.get.bind fun s s' hmoved => alike_operations (h _) level hmoved.length_eq left
  | unary =>
    refine alike_peek.bind ?_
    rintro token _ rfl
    rw [show (token.placed place).kind = token.kind from rfl]
    cases unaryOperator? token.kind with
    | none => exact h _
    | some op =>
      refine alike_advance.bind fun _ _ _ => (h _).bind ?_
      rintro operand _ rfl
      exact .pure rfl
  | application =>
    refine (h _).bind ?_
    rintro callee _ rfl
    exact Alike.get.bind fun s s' hmoved => alike_calls (h _) hmoved.length_eq callee
  | argument => exact h _
  | primary =>
    refine (alike_expect _).bind ?_
    rintro token _ rfl
    rw [show (token.placed place).kind = token.kind from rfl]
    cases token.kind with
    | lparen =>
      refine (alike_nextIs _).bind ?_
      rintro answer _ rfl
      refine Alike.ite ?_ ?_
      · exact Alike.bind (.pure rfl) fun _ _ hinner => (alike_expect _).bind fun _ _ _ =>
          .pure hinner
      · refine (h _).bind fun _ _ hinner => (alike_expect _).bind fun _ _ _ => .pure hinner
    | _ => exact .pure rfl

theorem alike_read (budget : Nat) (production : Production) :
    Alike place source Eq (read budget production) (read budget production) := by
  induction budget generalizing production with
  | zero => exact fun _ _ _ => .error
  | succ budget ih => exact alike_step ih production

theorem alike_parseNext (budget : Nat) :
    Alike place source Eq (parseNext budget) (parseNext budget) := by
  refine (alike_read budget .expr).bind ?_
  rintro expr _ rfl
  refine (alike_nextIs _).bind ?_
  rintro answer _ rfl
  exact .pure rfl

end Parser

end LetLang
