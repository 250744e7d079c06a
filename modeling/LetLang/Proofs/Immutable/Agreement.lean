import Mathlib.Data.List.Forall2
import LetLang.Proofs.Budget
import LetLang.Proofs.Immutable.Stage
/-!
# Agreement of the two semantics

Evaluation on a store agrees with the immutable semantics. The operations on scopes are treated
first, each from a valid stage to a valid stage; the induction on the budget then follows the
expression. Over a whole session the two give the same outcome for every expression.
-/
namespace LetLang

open Immutable (Frame)

section Operations

variable {scope : ScopeId} {outer : List Frame} {stage : Stage}

theorem agreesAt_ident (hv : stage.Valid scope outer) (budget : Nat) (name : String) :
    AgreesAt scope outer stage (evaluate (budget + 1) (.ident name) scope)
      (Immutable.evaluate (budget + 1) (.ident name) outer) Stage.Relates := by
  obtain ⟨own, hget, holder, hframe, houter⟩ := hv.current
  have hlookup := lookup?_reads hget holder hframe houter name
  refine ⟨stage, ?_⟩
  simp only [evaluate, Immutable.evaluate, outcome_bind, outcome_get]
  cases hv' : stage.store.lookup? scope name <;>
    cases hr : Immutable.lookup? (stage.frame :: outer) name <;>
    rw [hv', hr] at hlookup <;> cases hlookup
  · exact ⟨rfl, rfl, hv, .refl scope stage, .error _⟩
  · next reads => exact ⟨rfl, rfl, hv, .refl scope stage, .ok reads⟩

theorem agreesAt_conditionMismatch (hv : stage.Valid scope outer) {value : Value}
    {read : Immutable.Value} (h : stage.Relates value read) :
    AgreesAt scope outer stage
      (Evaluating.lift (Value.complain (value.describe?.map .conditionMismatch)))
      (Immutable.lift (Value.complain (read.face.describe?.map .conditionMismatch)))
      Stage.Relates := by
  rw [h.face_eq, describe?_forget]
  exact agreesAt_lift hv (sameResult_complain _ _)

theorem agreesAt_notAFunction (hv : stage.Valid scope outer) {value : Value}
    {read : Immutable.Value} (h : stage.Relates value read) :
    AgreesAt scope outer stage
      (Evaluating.lift (Value.complain (value.text?.map .notAFunction)))
      (Immutable.lift (Value.complain (read.face.text?.map .notAFunction))) Stage.Relates := by
  rw [h.face_eq, text?_forget]
  exact agreesAt_lift hv (sameResult_complain _ _)

theorem agreesAt_bind (hv : stage.Valid scope outer) (name : String) {value : Value}
    {read : Immutable.Value} (hr : stage.Relates value read) :
    AgreesAt scope outer stage (modify (·.bind scope name value)) (modify ((name, read) :: ·))
      fun later _ _ => later.Relates value read := by
  let later : Stage :=
    { stage with store := stage.store.bind scope name value, frame := (name, read) :: stage.frame }
  have hg : Stage.Grows scope stage later :=
    { size := by simp [later]
      frozen := fun _ h => h
      fresh := fun _ h => .inl h
      unchanged := fun id _ hne => Store.get?_bind_of_ne name value hne }
  have hp := hv.preserved hg
  obtain ⟨own, hget, holder, hreads, houter⟩ := hv.current
  refine ⟨later, rfl, rfl, ⟨?_, hv.live, own.put name value, ?_, holder, ?_, ?_⟩, hg, ?_⟩
  · intro id hid
    simpa [later] using hv.bounded id hid
  · simp [later, hget]
  · intro key
    rw [Scope.get?_put, lookup_cons_eq_ite]
    by_cases h : key = name
    · simpa only [h, if_true] using ReadsBinding.bound (hr.preserved hp)
    · simpa only [h, if_false] using (hreads key).preserved hp
  · exact houter.preserved hp
  · exact .ok (hr.preserved hp)

theorem agreesAt_capture (hv : stage.Valid scope outer) :
    AgreesAt scope outer stage (modifyGet (·.snapshot scope)) get
      fun later id frame => ReadsScopes later.frozen later.store (some id) (frame :: outer) := by
  obtain ⟨own, hget, holder, hreads, houter⟩ := hv.current
  have hlt := hv.lt_size
  have hsnapshot : stage.store.snapshot scope = stage.store.alloc own := by
    simp [Store.snapshot, hget]
  let later : Stage :=
    { stage with
      frozen := fun id => stage.frozen id ∨ id = stage.store.scopes.size
      store := (stage.store.alloc own).2 }
  have hg : Stage.Grows scope stage later :=
    { size := by simp [later]
      frozen := fun _ h => .inl h
      fresh := fun id h => h.imp_right fun h => Nat.le_of_eq h.symm
      unchanged := fun id hid _ => by simp [later, Nat.ne_of_lt hid] }
  have hp := hv.preserved hg
  have hv' : later.Valid scope outer := by
    apply hv.of_unchanged hg
    · rintro id (hid | rfl)
      · simpa [later] using Nat.lt_succ_of_lt (hv.bounded id hid)
      · simp [later]
    · simp [later, Nat.ne_of_lt hlt]
    · rfl
  refine ⟨later, ?_, rfl, hv', hg, ?_⟩
  · simp [later, hsnapshot]
  · simp only [outcome_modifyGet, outcome_get, hsnapshot, Store.alloc_fst]
    refine .ok (.cons (.inr rfl) (by simp [later]) ?_ (hreads.preserved hp) (houter.preserved hp))
    intro id hid
    exact Nat.lt_trans (holder id hid) hlt

/-- The stage in the scope that a call opens. -/
def Stage.enter (stage : Stage) (captured : ScopeId) (param : Option String) (argument : Value)
    (argument' : Immutable.Value) : Stage :=
  { stage with
    store := (stage.store.child captured (param.map (·, argument)).toList).2
    frame := (param.map (·, argument')).toList }

/-- The scope that a call opens stands within scopes that are frozen, and is not frozen itself. -/
theorem Stage.valid_enter {frames : List Frame} {captured : ScopeId} {argument : Value}
    {argument' : Immutable.Value}
    (hbounded : ∀ id, stage.frozen id → id < stage.store.scopes.size)
    (hcaptured : ReadsScopes stage.frozen stage.store (some captured) frames)
    (hargument : stage.Relates argument argument') (param : Option String) :
    (stage.enter captured param argument argument').Valid stage.store.scopes.size frames := by
  have hp : Preserved stage.frozen stage.frozen stage.store
      (stage.enter captured param argument argument').store := by
    intro id hid
    exact ⟨hid, by simp [enter, Store.child, Nat.ne_of_lt (hbounded id hid)]⟩
  refine ⟨?_, ?_, .ofList (param.map (·, argument)).toList (some captured), ?_, ?_, ?_,
    hcaptured.preserved hp⟩
  · intro id hid
    simpa [enter, Store.child] using Nat.lt_succ_of_lt (hbounded id hid)
  · intro h
    exact Nat.lt_irrefl _ (hbounded _ h)
  · simp [enter, Store.child]
  · rintro id ⟨⟩
    cases hcaptured with
    | cons isFrozen => exact hbounded _ isFrozen
  · intro name
    rw [Scope.get?_ofList_toList]
    cases param with
    | none => exact .unbound
    | some param =>
      simp only [Option.map_some, Option.toList_some, enter, lookup_cons_eq_ite]
      by_cases h : name = param
      · simpa only [h, if_true] using .bound (hargument.preserved hp)
      · simpa only [h, if_false] using .unbound

/-- A call agrees if the body does, in the new scope. The caller's scope is none of those that the
body may change, and it is not frozen by the body either. -/
theorem agreesAt_enter (hv : stage.Valid scope outer) {evaluate : Expr → ScopeId → Evaluating Value}
    {evaluate' : Immutable.Evaluating Immutable.Value} {body : Expr} {captured : ScopeId}
    {frames : List Frame} {argument : Value} {argument' : Immutable.Value}
    (hbody : ∀ (stage : Stage) (frame : ScopeId), stage.Valid frame frames →
      AgreesAt frame frames stage (evaluate body frame) evaluate' Stage.Relates)
    (hcaptured : ReadsScopes stage.frozen stage.store (some captured) frames)
    (hargument : stage.Relates argument argument') (param : Option String) :
    AgreesAt scope outer stage (Evaluating.enter evaluate param body captured argument)
      (Immutable.within (param.map (·, argument')).toList evaluate') Stage.Relates := by
  have hlt := hv.lt_size
  have hopened := stage.valid_enter hv.bounded hcaptured hargument param
  obtain ⟨later, hstore, _, hv', hg, hr⟩ := hbody _ _ hopened
  have hold : ∀ id, id < stage.store.scopes.size →
      (stage.enter captured param argument argument').store.get? id = stage.store.get? id := by
    intro id hid
    simp [Stage.enter, Store.child, Nat.ne_of_lt hid]
  have hsize : stage.store.scopes.size <
      (stage.enter captured param argument argument').store.scopes.size := by
    simp [Stage.enter, Store.child]
  let returned : Stage := { later with frame := stage.frame }
  have hgrows : Stage.Grows scope stage returned :=
    { size := Nat.le_trans (Nat.le_of_lt hsize) hg.size
      frozen := hg.frozen
      fresh := fun id hid => (hg.fresh id hid).imp_right (Nat.le_trans (Nat.le_of_lt hsize))
      unchanged := fun id hid _ =>
        (hg.unchanged id (Nat.lt_trans hid hsize) (Nat.ne_of_lt hid)).trans (hold id hid) }
  refine ⟨returned, hstore, rfl, ?_, hgrows, hr⟩
  apply hv.of_unchanged hgrows hv'.bounded _ rfl
  exact (hg.unchanged scope (Nat.lt_trans hlt hsize) (Nat.ne_of_lt hlt)).trans (hold scope hlt)

end Operations

/-- Evaluation on a store agrees with the immutable semantics from every valid stage on. -/
theorem evaluate_agrees (budget : Nat) (expr : Expr) {scope : ScopeId} {outer : List Frame}
    {stage : Stage} (hv : stage.Valid scope outer) :
    AgreesAt scope outer stage (evaluate budget expr scope)
      (Immutable.evaluate budget expr outer) Stage.Relates := by
  induction budget generalizing expr scope outer stage with
  | zero => exact agreesAt_throw hv _ _
  | succ budget ih =>
    cases expr with
    | unit => exact agreesAt_pure hv .unit
    | int n => exact agreesAt_pure hv (.int n)
    | bool b => exact agreesAt_pure hv (.bool b)
    | ident name => exact agreesAt_ident hv budget name
    | binary op left right =>
      refine (ih left hv).bind fun later a a' hv hg ha => ?_
      refine (ih right hv).bind fun later b b' hv' hg' hb => ?_
      exact agreesAt_lift hv' (sameResult_binary op (ha.preserved (hv.preserved hg')) hb)
    | unary op operand =>
      refine (ih operand hv).bind fun later a a' hv hg ha => ?_
      exact agreesAt_lift hv (sameResult_unary op ha)
    | define name bound =>
      refine (ih bound hv).bind fun later a a' hv hg ha => ?_
      exact (agreesAt_bind hv name ha).bind fun later _ _ hv hg ha => agreesAt_pure hv ha
    | letIn name bound body =>
      refine (ih bound hv).bind fun later a a' hv hg ha => ?_
      exact (agreesAt_bind hv name ha).bind fun later _ _ hv hg ha => ih body hv
    | ifThen cond yes =>
      refine (ih cond hv).bind fun later a a' hv hg ha => ?_
      cases ha with
      | bool b =>
        cases b
        · exact agreesAt_pure hv .unit
        · exact ih yes hv
      | unit => exact agreesAt_conditionMismatch hv .unit
      | int n => exact agreesAt_conditionMismatch hv (.int n)
      | closure param body scopes =>
        exact agreesAt_conditionMismatch hv (.closure param body scopes)
    | ifThenElse cond yes no =>
      refine (ih cond hv).bind fun later a a' hv hg ha => ?_
      cases ha with
      | bool b =>
        cases b
        · exact ih no hv
        · exact ih yes hv
      | unit => exact agreesAt_conditionMismatch hv .unit
      | int n => exact agreesAt_conditionMismatch hv (.int n)
      | closure param body scopes =>
        exact agreesAt_conditionMismatch hv (.closure param body scopes)
    | fn param body =>
      exact (agreesAt_capture hv).bind fun later id frame hv hg h =>
        agreesAt_pure hv (.closure param body h)
    | apply callee argument =>
      refine (ih callee hv).bind fun later f f' hv hg hf => ?_
      cases hf with
      | closure param body scopes =>
        refine (ih argument hv).bind fun last a a' hv' hg' ha => ?_
        exact agreesAt_enter hv' (fun _ _ hv => ih body hv)
          (scopes.preserved (hv.preserved hg')) ha param
      | unit => exact agreesAt_notAFunction hv .unit
      | int n => exact agreesAt_notAFunction hv (.int n)
      | bool b => exact agreesAt_notAFunction hv (.bool b)
    | datum value => exact agreesAt_lift hv (sameResult_complain _ _)


/-- The two semantics may have different budgets, as long as both suffice. -/
theorem evaluate_agrees_of_budgets {budget budget' : Nat} {expr : Expr} {scope : ScopeId}
    {outer : List Frame} {stage : Stage} (hv : stage.Valid scope outer)
    (h : ¬ RanOut (outcome (evaluate budget expr scope) stage.store).1)
    (h' : ¬ RanOut (outcome (Immutable.evaluate budget' expr outer) stage.frame).1) :
    AgreesAt scope outer stage (evaluate budget expr scope)
      (Immutable.evaluate budget' expr outer) Stage.Relates := by
  have hagrees := evaluate_agrees budget' expr hv
  have heq : outcome (evaluate budget expr scope) stage.store =
      outcome (evaluate budget' expr scope) stage.store := by
    rcases Nat.le_total budget budget' with hle | hle
    · exact (evaluate_prolongs hle expr scope stage.store h).symm
    · apply evaluate_prolongs hle expr scope stage.store
      obtain ⟨_, _, _, _, _, hr⟩ := hagrees
      exact hr.not_ranOut h'
  unfold AgreesAt at hagrees ⊢
  rw [heq]
  exact hagrees

/-! ### Sessions -/

/-- Every scope; reading through it asks for nothing to be frozen. -/
abbrev anyScope : ScopeId → Prop := fun _ => True

/-- A step on a store corresponds to one with immutable scopes: the same expression, the same fault
or a value that reads as the other one, and bindings in the root scope that read so. -/
structure Step.Corresponds (root : ScopeId) (step : Step Store Value)
    (step' : Step Frame Immutable.Value) : Prop where
  expr : step.expr = step'.expr
  result : SameResult (Reads anyScope step.after) step.result step'.result
  bindings : ∃ own, step.after.get? root = some own ∧ own.outer = none ∧
    ReadsFrame anyScope step.after own step'.after

/-- Two sessions run alike: step by step they correspond, neither ends before the other, and only
a step that runs out of its budget on one side leaves the rest open. -/
inductive RunAlike (root : ScopeId) :
    List (Step Store Value) → List (Step Frame Immutable.Value) → Prop
  | nil : RunAlike root [] []
  | cons {step : Step Store Value} {step' : Step Frame Immutable.Value}
      {rest : List (Step Store Value)} {rest' : List (Step Frame Immutable.Value)}
      (head : step.Corresponds root step') (tail : RunAlike root rest rest') :
      RunAlike root (step :: rest) (step' :: rest')
  | ranOut {step : Step Store Value} {step' : Step Frame Immutable.Value}
      {rest : List (Step Store Value)} {rest' : List (Step Frame Immutable.Value)}
      (expr : step.expr = step'.expr) (limit : RanOut step.result ∨ RanOut step'.result) :
      RunAlike root (step :: rest) (step' :: rest')

theorem preserved_anyScope (frozen : ScopeId → Prop) (store : Store) :
    Preserved frozen anyScope store store :=
  fun _ _ => ⟨trivial, rfl⟩

theorem Stage.Valid.root_bindings {root : ScopeId} {stage : Stage} (hv : stage.Valid root []) :
    ∃ own, stage.store.get? root = some own ∧ own.outer = none ∧
      ReadsFrame anyScope stage.store own stage.frame := by
  obtain ⟨own, hget, _, hframe, houter⟩ := hv.current
  refine ⟨own, hget, ?_, hframe.preserved (preserved_anyScope _ _)⟩
  cases ho : own.outer with
  | none => rfl
  | some id => rw [ho] at houter; cases houter

/-- The first step of each side corresponds to that of the other, if the two agree on the first
expression. A relation that takes a step more holds then of all steps, if it holds of what comes
after the first one. -/
theorem steps_cons_of_agrees {budget budget' : Nat} {root : ScopeId} {stage : Stage}
    {P : List (Step Store Value) → List (Step Frame Immutable.Value) → Prop}
    (hcons : ∀ {step step' rest rest'}, Step.Corresponds root step step' → P rest rest' →
      P (step :: rest) (step' :: rest'))
    {stop : Option Fault} {expr : Expr} {exprs : List Expr}
    {rest : Store → List (Step Store Value)} {rest' : Frame → List (Step Frame Immutable.Value)}
    (hagrees : AgreesAt root [] stage (evaluate budget expr root)
      (Immutable.evaluate budget' expr []) Stage.Relates)
    (hrest : ∀ later : Stage, later.Valid root [] → P (rest later.store) (rest' later.frame))
    (hexprs : ∀ later : Stage, later.Valid root [] →
      P (steps (evaluate budget · root) exprs later.store ++
          rest (outcome (inOrder (evaluate budget · root) stop exprs) later.store).2)
        (steps (Immutable.evaluate budget' · []) exprs later.frame ++
          rest' (outcome (inOrder (Immutable.evaluate budget' · []) stop exprs) later.frame).2)) :
    P (steps (evaluate budget · root) (expr :: exprs) stage.store ++
        rest (outcome (inOrder (evaluate budget · root) stop (expr :: exprs)) stage.store).2)
      (steps (Immutable.evaluate budget' · []) (expr :: exprs) stage.frame ++
        rest' (outcome (inOrder (Immutable.evaluate budget' · []) stop (expr :: exprs))
          stage.frame).2) := by
  obtain ⟨later, hstore, hframe, hv', _, hr⟩ := hagrees
  have hp := preserved_anyScope later.frozen later.store
  rw [steps, steps]
  rcases hx : outcome (evaluate budget expr root) stage.store with ⟨result, store⟩
  rcases hy : outcome (Immutable.evaluate budget' expr []) stage.frame with ⟨result', frame⟩
  rw [hx, hy] at hr
  rw [hx] at hstore
  rw [hy] at hframe
  subst hstore hframe
  cases hr with
  | error fault =>
    rw [outcome_inOrder_cons_of_error hx, outcome_inOrder_cons_of_error hy]
    exact hcons ⟨rfl, .error fault, hv'.root_bindings⟩ (hrest later hv')
  | ok hab =>
    rw [outcome_inOrder_cons_of_ok hx, outcome_inOrder_cons_of_ok hy]
    exact hcons ⟨rfl, .ok (hab.preserved hp), hv'.root_bindings⟩ (hexprs later hv')

/-- The expressions of one text run alike, if what comes after them does from every valid stage. -/
theorem runAlike_steps {budget budget' : Nat} {root : ScopeId} {stage : Stage}
    (hv : stage.Valid root []) (stop : Option Fault) (exprs : List Expr)
    {rest : Store → List (Step Store Value)} {rest' : Frame → List (Step Frame Immutable.Value)}
    (hrest : ∀ later : Stage, later.Valid root [] →
      RunAlike root (rest later.store) (rest' later.frame)) :
    RunAlike root
      (steps (evaluate budget · root) exprs stage.store ++
        rest (outcome (inOrder (evaluate budget · root) stop exprs) stage.store).2)
      (steps (Immutable.evaluate budget' · []) exprs stage.frame ++
        rest' (outcome (inOrder (Immutable.evaluate budget' · []) stop exprs) stage.frame).2) := by
  induction exprs generalizing stage with
  | nil =>
    cases stop <;> exact hrest stage hv
  | cons expr exprs ih =>
    by_cases h : RanOut (outcome (evaluate budget expr root) stage.store).1 ∨
        RanOut (outcome (Immutable.evaluate budget' expr []) stage.frame).1
    · rw [steps, steps]
      rcases hx : outcome (evaluate budget expr root) stage.store with ⟨_ | _, _⟩ <;>
        rcases hy : outcome (Immutable.evaluate budget' expr []) stage.frame with ⟨_ | _, _⟩ <;>
        rw [hx, hy] at h <;> exact .ranOut rfl h
    · rw [not_or] at h
      exact steps_cons_of_agrees .cons (evaluate_agrees_of_budgets hv h.1 h.2) hrest
        fun later hlater => ih hlater

theorem runAlike_session {parsing budget budget' : Nat} {root : ScopeId} {stage : Stage}
    (hv : stage.Valid root []) (texts : List String) :
    RunAlike root (Program.session ⟨parsing, budget⟩ root texts stage.store)
      (Immutable.session ⟨parsing, budget'⟩ texts stage.frame) := by
  induction texts generalizing stage with
  | nil => exact .nil
  | cons text texts ih =>
    rw [Program.session, Immutable.session, Program.interpret_eq_inOrder]
    exact runAlike_steps hv _ _ fun later hv => ih hv

/-- With one budget for both sides, all expressions of a text correspond, also those that run out of
it. -/
theorem corresponds_steps {budget : Nat} {root : ScopeId} {stage : Stage}
    (hv : stage.Valid root []) (stop : Option Fault) (exprs : List Expr)
    {rest : Store → List (Step Store Value)} {rest' : Frame → List (Step Frame Immutable.Value)}
    (hrest : ∀ later : Stage, later.Valid root [] →
      List.Forall₂ (Step.Corresponds root) (rest later.store) (rest' later.frame)) :
    List.Forall₂ (Step.Corresponds root)
      (steps (evaluate budget · root) exprs stage.store ++
        rest (outcome (inOrder (evaluate budget · root) stop exprs) stage.store).2)
      (steps (Immutable.evaluate budget · []) exprs stage.frame ++
        rest' (outcome (inOrder (Immutable.evaluate budget · []) stop exprs) stage.frame).2) := by
  induction exprs generalizing stage with
  | nil =>
    cases stop <;> exact hrest stage hv
  | cons expr exprs ih =>
    exact steps_cons_of_agrees .cons (evaluate_agrees budget expr hv) hrest
      fun later hlater => ih hlater

theorem corresponds_session {limits : Limits} {root : ScopeId} {stage : Stage}
    (hv : stage.Valid root []) (texts : List String) :
    List.Forall₂ (Step.Corresponds root) (Program.session limits root texts stage.store)
      (Immutable.session limits texts stage.frame) := by
  induction texts generalizing stage with
  | nil => exact .nil
  | cons text texts ih =>
    rw [Program.session, Immutable.session, Program.interpret_eq_inOrder]
    exact corresponds_steps hv _ _ fun later hv => ih hv

/-- An empty root scope, with nothing frozen, stands for an empty frame. -/
theorem valid_start :
    Stage.Valid Program.root []
      { frozen := fun _ => False, store := Program.start, frame := [] } where
  bounded _ h := h.elim
  live h := h
  current := ⟨.ofList [] none, rfl, by simp, fun _ => .unbound, .nil⟩

/-- Interpreting texts on one root scope that is empty at first gives, expression by expression,
what the immutable semantics gives, and leaves the same bindings in the root scope. The two may have
budgets of their own, as long as both suffice; with the same budget they run out of it together. -/
theorem session_refines_immutable (parsing budget budget' : Nat) (texts : List String) :
    RunAlike Program.root
      (Program.session ⟨parsing, budget⟩ Program.root texts Program.start)
      (Immutable.session ⟨parsing, budget'⟩ texts []) ∧
    List.Forall₂ (Step.Corresponds Program.root)
      (Program.session ⟨parsing, budget⟩ Program.root texts Program.start)
      (Immutable.session ⟨parsing, budget⟩ texts []) :=
  ⟨runAlike_session valid_start texts, corresponds_session valid_start texts⟩

end LetLang
