import LetLang.Proofs.Texts.Seam
/-!
# Texts in pieces

Running a text and a line after it is running the two of them one after the other, if the first
runs to its end and the second begins with a token that goes on with no expression.
-/
namespace LetLang

open Evaluating

/-! ### Faults of evaluation -/

/-- The fault names no place in a text. -/
def Fault.Placeless (fault : Fault) : Prop :=
  ∀ place source, fault.placed place source = fault

/-- No fault of the computation names a place in a text. -/
def Placeless {α : Type} (x : Evaluating α) : Prop :=
  ∀ store fault store', outcome x store = (.error fault, store') → fault.Placeless

section Faults

variable {α β : Type} {fault : Fault}

theorem placeless_pure (a : α) : Placeless (pure a : Evaluating α) := by
  intro store fault store' h
  cases h

theorem Placeless.bind {x : Evaluating α} {f : α → Evaluating β} (hx : Placeless x)
    (hf : ∀ a, Placeless (f a)) : Placeless (x >>= f) := by
  intro store fault store' h
  rcases hfirst : outcome x store with ⟨fault' | a, store₁⟩
  · rw [outcome_bind_of_error hfirst] at h
    cases h
    exact hx _ _ _ hfirst
  · rw [outcome_bind_of_ok hfirst] at h
    exact hf a _ _ _ h

theorem placeless_lift {result : Except Fault α}
    (h : ∀ fault, result = .error fault → fault.Placeless) : Placeless (lift result) := by
  intro store fault store' heq
  cases heq
  exact h fault rfl

theorem placeless_of_complain {error : Option LanguageError}
    (herror : ∀ e ∈ error, (Fault.language e).Placeless)
    (h : (Value.complain error : Except Fault α) = .error fault) : fault.Placeless := by
  cases error with
  | none =>
    cases h
    exact fun _ _ => rfl
  | some e =>
    cases h
    exact herror e rfl

theorem placeless_of_complain_map {describe : String → LanguageError}
    (hdescribe : ∀ text, (Fault.language (describe text)).Placeless) {text : Option String}
    (h : (Value.complain (text.map describe) : Except Fault α) = .error fault) :
    fault.Placeless := by
  refine placeless_of_complain ?_ h
  intro e he
  obtain ⟨text, -, rfl⟩ := Option.map_eq_some_iff.1 he
  exact hdescribe text

theorem placeless_of_binary {op : BinaryOp} {left right : Value}
    (h : left.binary op right = .error fault) : fault.Placeless := by
  unfold Value.binary at h
  split at h <;> try cases h
  · split at h
    · exact placeless_of_complain_map (fun _ _ _ => rfl) h
    · cases h
  · refine placeless_of_complain ?_ h
    intro e he
    split at he
    · cases he
      exact fun _ _ => rfl
    · cases he

theorem placeless_of_unary {op : UnaryOp} {operand : Value}
    (h : operand.unary op = .error fault) : fault.Placeless := by
  unfold Value.unary at h
  split at h <;> try cases h
  exact placeless_of_complain_map (fun _ _ _ => rfl) h

/-- The faults of evaluation name no places. -/
theorem evaluate_placeless (budget : Nat) (expr : Expr) (scope : ScopeId) :
    Placeless (evaluate budget expr scope) := by
  induction budget generalizing expr scope with
  | zero =>
    intro store fault store' h
    cases h
    exact fun _ _ => rfl
  | succ budget ih =>
    cases expr with
    | unit | int | bool => exact placeless_pure _
    | ident name =>
      intro store fault store' h
      rw [evaluate, outcome_bind_of_ok (outcome_get store)] at h
      split at h
      · cases h
      · cases h
        exact fun _ _ => rfl
    | binary op left right =>
      exact (ih left scope).bind fun a => (ih right scope).bind fun b =>
        placeless_lift fun _ => placeless_of_binary
    | unary op operand =>
      exact (ih operand scope).bind fun a => placeless_lift fun _ => placeless_of_unary
    | define name bound =>
      refine (ih bound scope).bind fun a => ?_
      intro store fault store' h
      cases h
    | letIn name bound body =>
      refine (ih bound scope).bind fun a => Placeless.bind ?_ fun _ => ih body scope
      intro store fault store' h
      cases h
    | ifThen cond yes =>
      refine (ih cond scope).bind fun value => ?_
      rcases value with _ | _ | (_ | _) | _
      case bool.true => exact ih yes scope
      case bool.false => exact placeless_pure _
      all_goals
        exact placeless_lift fun _ => placeless_of_complain_map fun _ _ _ => rfl
    | ifThenElse cond yes no =>
      refine (ih cond scope).bind fun value => ?_
      rcases value with _ | _ | (_ | _) | _
      case bool.true => exact ih yes scope
      case bool.false => exact ih no scope
      all_goals
        exact placeless_lift fun _ => placeless_of_complain_map fun _ _ _ => rfl
    | fn param body =>
      intro store fault store' h
      cases h
    | apply callee argument =>
      refine (ih callee scope).bind fun value => ?_
      cases value with
      | closure param body captured =>
        refine (ih argument scope).bind fun a => Placeless.bind ?_ fun frame => ih body frame
        intro store fault store' h
        cases h
      | unit | int | bool =>
        exact placeless_lift fun _ => placeless_of_complain_map fun _ _ _ => rfl
    | datum value => exact placeless_lift fun _ => placeless_of_complain_map fun _ _ _ => rfl

end Faults

/-! ### Running -/

section Running

variable {S V : Type} {eval : Expr → ExceptT Fault (StateM S) V}

/-- Evaluating two lists of expressions is evaluating the first and then the second. -/
theorem outcome_inOrder_append {exprs : List Expr} {values : List V} {s s' : S}
    (h : outcome (inOrder eval none exprs) s = (.ok values, s')) (stop : Option Fault)
    (others : List Expr) :
    outcome (inOrder eval stop (exprs ++ others)) s =
      match outcome (inOrder eval stop others) s' with
      | (.ok values', s'') => (.ok (values ++ values'), s'')
      | (.error fault, s'') => (.error fault, s'') := by
  induction exprs generalizing values s with
  | nil =>
    cases h
    rw [List.nil_append]
    rcases outcome (inOrder eval stop others) s' with ⟨_ | _, _⟩ <;> rfl
  | cons expr exprs ih =>
    obtain ⟨value, s₁, hvalue, h⟩ := outcome_bind_eq_ok.1 h
    obtain ⟨values, s₂, hvalues, h⟩ := outcome_bind_eq_ok.1 h
    cases h
    rw [List.cons_append, inOrder, outcome_bind_of_ok hvalue, outcome_bind, ih hvalues]
    rcases outcome (inOrder eval stop others) s' with ⟨_ | _, _⟩ <;> rfl

/-- What stopped the reading of a text keeps it from succeeding. -/
theorem stop_eq_none_of_inOrder {exprs : List Expr} {stop : Option Fault} {values : List V}
    {s s' : S} (h : outcome (inOrder eval stop exprs) s = (.ok values, s')) : stop = none := by
  induction exprs generalizing values s s' with
  | nil =>
    cases stop with
    | none => rfl
    | some fault => cases h
  | cons expr exprs ih =>
    obtain ⟨value, s₁, -, h⟩ := outcome_bind_eq_ok.1 h
    obtain ⟨values, s₂, h, -⟩ := outcome_bind_eq_ok.1 h
    exact ih h

end Running

/-- Reading stops at a fault that names another place, with the same effects before it. -/
theorem outcome_inOrder_placed (budget : Nat) (scope : ScopeId) (place : Nat → Nat)
    (source : String) (stop : Option Fault) (exprs : List Expr) (store : Store) :
    outcome (inOrder (evaluate budget · scope) (stop.map (Fault.placed place source)) exprs) store =
      match outcome (inOrder (evaluate budget · scope) stop exprs) store with
      | (.ok values, store') => (.ok values, store')
      | (.error fault, store') => (.error (fault.placed place source), store') := by
  induction exprs generalizing store with
  | nil => cases stop <;> rfl
  | cons expr exprs ih =>
    rw [inOrder, inOrder, outcome_bind, outcome_bind]
    rcases hvalue : outcome (evaluate budget expr scope) store with ⟨fault | value, store₁⟩
    · dsimp only
      rw [evaluate_placeless budget expr scope _ _ _ hvalue]
    · dsimp only
      rw [outcome_bind, outcome_bind, ih store₁]
      rcases outcome (inOrder (evaluate budget · scope) stop exprs) store₁ with ⟨_ | _, _⟩ <;> rfl

/-- If a text runs to its end and a line begins with a token that goes on with no expression, then
running the text with the line after it is running the text and then, in the store that it leaves,
the line. A fault in the line is the fault of the whole, but for the place that it names. -/
theorem interpret_in_pieces (limits : Limits) (scope : ScopeId) {text line : String}
    {values : List Value} {store store' : Store} {token : Token} {lexer : Lexer}
    (htext : outcome (Program.interpret limits text scope) store = (.ok values, store'))
    (hnext : (Lexer.ofText line).next = (.ok token, lexer))
    (hkind : token.kind ∈ Parser.boundaryKinds) :
    outcome (Program.interpret limits (text ++ "\n" ++ line) scope) store =
      match outcome (Program.interpret limits line scope) store' with
      | (.ok values', store'') => (.ok (values ++ values'), store'')
      | (.error fault, store'') =>
        (.error (fault.moved (text.length + 1) (text ++ "\n" ++ line)), store'') := by
  rw [Program.interpret_eq_inOrder] at htext
  have hstop := stop_eq_none_of_inOrder htext
  rw [hstop] at htext
  have hwhole := Program.expressions_append (Prod.ext rfl hstop) hnext hkind
  rw [Program.interpret_eq_inOrder, Program.interpret_eq_inOrder, hwhole,
    outcome_inOrder_append htext, Fault.moved_eq_placed, outcome_inOrder_placed]
  rcases outcome (inOrder _ (Program.expressions limits.parsing line).2 _) store' with ⟨_ | _, _⟩
  · rfl
  · rfl

theorem interpret_in_pieces_comment :
    let text := "let x = 1 // one"
    let line := "x + x )"
    let store := Program.start.bind Program.root "x" (.int 1)
    outcome (Program.interpret ⟨99, 99⟩ text Program.root) Program.start = (.ok [.int 1], store) ∧
      (Lexer.ofText line).next = (.ok ⟨.ident, "x", 0⟩, ⟨line, 1⟩) ∧
      outcome (Program.interpret ⟨99, 99⟩ (text ++ "\n" ++ line) Program.root) Program.start =
        (.error (.language (.unexpectedToken Parser.primaryKinds ⟨.rparen, ")", 23⟩
          "let x = 1 // one\nx + x )")), store) := by
  intro text line store
  have htext : outcome (Program.interpret ⟨99, 99⟩ text Program.root) Program.start =
      (.ok [.int 1], store) := by
    decide +kernel
  have hnext : (Lexer.ofText line).next = (.ok ⟨.ident, "x", 0⟩, ⟨line, 1⟩) := by decide +kernel
  refine ⟨htext, hnext, ?_⟩
  have hline : outcome (Program.interpret ⟨99, 99⟩ line Program.root) store =
      (.error (.language (.unexpectedToken Parser.primaryKinds ⟨.rparen, ")", 6⟩ line)),
        store) := by
    decide +kernel
  rw [interpret_in_pieces ⟨99, 99⟩ Program.root htext hnext (by decide), hline]
  decide +kernel

end LetLang
