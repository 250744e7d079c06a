import LetLang.Proofs.History.Frozen
import LetLang.Proofs.Immutable.Agreement
/-!
# Closures are pure functions

Over the whole history of a session, the scopes that a closure reaches stay as they were when it
was made, and the root scope is none of them. A call of the closure therefore gives the same at
any two later moments, whatever happens in between.
-/
namespace LetLang

open Immutable (Frame)

/-! ### Sessions respect what is frozen -/

theorem inOrder_tracks (budget : Nat) (stop : Option Fault) (exprs : List Expr) {world : World}
    {scope : ScopeId} (hs : world.Sound) (hlive : ¬ world.frozen scope)
    (hlt : scope < world.store.scopes.size) :
    Tracks world (inOrder (evaluate budget · scope) stop exprs)
      (changesInOrder budget scope exprs world.store) fun _ _ => True := by
  induction exprs generalizing world with
  | nil => cases stop <;> exact tracks_of_unchanged rfl fun _ _ => trivial
  | cons expr exprs ih =>
    refine (evaluate_tracks budget expr hs hlive hlt).bind hs fun later value hs hl _ => ?_
    have hrest := ih hs (hl.live hlive hlt) (Nat.lt_of_lt_of_le hlt hl.size)
    exact hrest.lift fun _ values _ _ _ => trivial

theorem history_runs (limits : Limits) (texts : List String) {world : World} {scope : ScopeId}
    (hs : world.Sound) (hlive : ¬ world.frozen scope) (hlt : scope < world.store.scopes.size) :
    ∃ later, Runs world (Program.history limits scope texts world.store) later := by
  induction texts generalizing world with
  | nil => exact ⟨world, .nil world⟩
  | cons text texts ih =>
    obtain ⟨later, hruns, hstore, _⟩ := inOrder_tracks limits.evaluation
      (Program.expressions limits.parsing text).2 (Program.expressions limits.parsing text).1
      hs hlive hlt
    obtain ⟨hs', hl⟩ := hruns.sound_leads hs
    obtain ⟨last, hlast⟩ := ih hs' (hl.live hlive hlt) (Nat.lt_of_lt_of_le hlt hl.size)
    rw [Program.history, Program.interpret_eq_inOrder, ← hstore]
    exact ⟨last, hruns.append hlast⟩

/-- The world of a new session: nothing was captured yet. -/
def World.start : World where
  frozen _ := False
  store := Program.start

theorem World.sound_start : World.start.Sound := by
  have hget : ∀ id scope, World.start.store.get? id = some scope → scope = .ofList [] none := by
    intro id scope h
    simp only [World.start, Program.start, Store.root, Store.get?_alloc] at h
    split at h
    · exact (Option.some.inj h).symm
    · simp [Store.empty, Store.get?] at h
  refine ⟨fun _ h => h.elim, ?_, ?_, fun _ _ _ _ h => h.elim⟩
  · intro id scope outer h ho
    rw [hget id scope h] at ho
    cases ho
  · intro id scope name value h hv
    rw [hget id scope h] at hv
    cases hv

/-! ### Frozen scopes can be read -/

theorem lookup_map_of_key {α β : Type} (read : String → β) (bindings : List (String × α))
    (name : String) :
    (bindings.map fun binding => (binding.1, read binding.1)).lookup name =
      (bindings.lookup name).map fun _ => read name := by
  induction bindings with
  | nil => rfl
  | cons binding rest ih =>
    rw [List.map_cons, lookup_cons_eq_ite, lookup_cons_eq_ite, ih]
    by_cases h : name = binding.1
    · simp [h]
    · simp [h]

/-- If every value of a scope can be read, so can the scope. -/
theorem exists_readsFrame {frozen : ScopeId → Prop} {store : Store} {scope : Scope}
    (h : ∀ name value, scope.get? name = some value → ∃ read, Reads frozen store value read) :
    ∃ frame, ReadsFrame frozen store scope frame := by
  have hread : ∀ name, ∃ read, ∀ value, scope.get? name = some value →
      Reads frozen store value read := by
    intro name
    cases hv : scope.get? name with
    | none => exact ⟨.unit, fun _ h => by cases h⟩
    | some value =>
      obtain ⟨read, hr⟩ := h name value hv
      exact ⟨read, fun _ h => by cases h; exact hr⟩
  obtain ⟨read, hread⟩ := Classical.skolem.1 hread
  refine ⟨scope.bindings.map fun binding => (binding.1, read binding.1), fun name => ?_⟩
  rw [lookup_map_of_key]
  cases hv : scope.get? name with
  | none =>
    rw [Scope.get?] at hv
    rw [hv]
    exact .unbound
  | some value =>
    have hr := hread name value hv
    rw [Scope.get?] at hv
    rw [hv]
    exact .bound hr

theorem World.Sound.exists_readsScopes {world : World} (hs : world.Sound) {id : ScopeId}
    (hid : world.frozen id) :
    ∃ frames, ReadsScopes world.frozen world.store (some id) frames := by
  induction id using Nat.strongRecOn with
  | ind id ih =>
    obtain ⟨scope, hget⟩ : ∃ scope, world.store.get? id = some scope :=
      ⟨_, Array.getElem?_eq_getElem (hs.bounded id hid)⟩
    obtain ⟨frame, hframe⟩ : ∃ frame, ReadsFrame world.frozen world.store scope frame := by
      apply exists_readsFrame
      intro name value hv
      have hwithin := hs.values id scope name value hget hv
      have holder := hs.older id scope name value hid hget hv
      cases value with
      | unit => exact ⟨_, .unit⟩
      | int n => exact ⟨_, .int n⟩
      | bool b => exact ⟨_, .bool b⟩
      | closure param body captured =>
        obtain ⟨frames, hframes⟩ := ih captured holder hwithin
        exact ⟨_, .closure param body hframes⟩
    have houter : ∃ frames, ReadsScopes world.frozen world.store scope.outer frames := by
      cases ho : scope.outer with
      | none => exact ⟨[], .nil⟩
      | some outer =>
        obtain ⟨hfrozen, hlt⟩ := hs.outer id scope outer hget ho
        exact ih outer hlt hfrozen
    obtain ⟨frames, hframes⟩ := houter
    exact ⟨frame :: frames, .cons hid hget
      (fun outer ho => (hs.outer id scope outer hget ho).2) hframe hframes⟩

theorem World.Sound.exists_reads {world : World} (hs : world.Sound) {value : Value}
    (h : world.Knows value) : ∃ read, Reads world.frozen world.store value read := by
  cases value with
  | unit => exact ⟨_, .unit⟩
  | int n => exact ⟨_, .int n⟩
  | bool b => exact ⟨_, .bool b⟩
  | closure param body captured =>
    obtain ⟨frames, hframes⟩ := hs.exists_readsScopes h
    exact ⟨_, .closure param body hframes⟩

/-! ### Moments -/

/-- The scope lies on the chain from a scope outwards. -/
inductive Store.OnChain (store : Store) : ScopeId → ScopeId → Prop
  | here (id : ScopeId) : store.OnChain id id
  | outer {id next target : ScopeId} {scope : Scope} (get : store.get? id = some scope)
      (link : scope.outer = some next) (rest : store.OnChain next target) :
      store.OnChain id target

/-- The values that there are after changes: those without a scope, and the closures that were
made. A closure captures the scope that is made for it, which is the next one of the store. -/
inductive Made (start : Store) (done : List Change) : Value → Prop
  | unit : Made start done .unit
  | int (n : Int) : Made start done (.int n)
  | bool (b : Bool) : Made start done (.bool b)
  | closure {early late : List Change} {scope : ScopeId} {param : Option String} {body : Expr}
      (h : done = early ++ .capture scope param body :: late) :
      Made start done (.closure param body (start.after early).scopes.size)

/-- Two values in two stores are the same: they read as one immutable value, which for closures
means the same parameter, the same body and the same captured bindings. -/
def SameValue (store store' : Store) (value value' : Value) : Prop :=
  ∃ read, Reads anyScope store value read ∧ Reads anyScope store' value' read

theorem Store.OnChain.frozen {world : World} (hs : world.Sound) {id target : ScopeId}
    (h : world.store.OnChain id target) (hid : world.frozen id) : world.frozen target := by
  induction h with
  | here => exact hid
  | outer get link _ ih => exact ih (hs.outer _ _ _ get link).1

/-- What was made is known from then on. -/
theorem Made.knows {start world : World} {done : List Change} {value : Value}
    (h : Made start.store done value) (hruns : Runs start done world) (hs : start.Sound) :
    world.Knows value := by
  cases h with
  | unit | int | bool => trivial
  | @closure early late scope param body hdone =>
    subst hdone
    obtain ⟨before, hearly, hlate⟩ := hruns.split
    obtain ⟨hs', _⟩ := hearly.sound_leads hs
    cases hlate with
    | cons fits rest =>
      obtain ⟨_, hleads⟩ := rest.sound_leads (Change.step_sound hs' fits)
      have hnew : ((Change.capture scope param body).step before).frozen
          (start.store.after early).scopes.size := by
        rw [← hearly.store_eq]
        exact .inr rfl
      exact (hleads.preserved _ hnew).1

/-- A call gives what the immutable semantics gives for what closure and argument read as. -/
theorem call_agrees {world : World} (hs : world.Sound) {param : Option String} {body : Expr}
    {captured : ScopeId} {frames : List Frame} {argument : Value} {argument' : Immutable.Value}
    (hcaptured : ReadsScopes world.frozen world.store (some captured) frames)
    (hargument : Reads world.frozen world.store argument argument') (budget : Nat) :
    SameResult (Reads anyScope
        (outcome (call budget (.closure param body captured) argument) world.store).2)
      (outcome (call budget (.closure param body captured) argument) world.store).1
      (outcome (Immutable.call budget (.closure param body frames) argument') []).1 := by
  let stage : Stage := { frozen := world.frozen, store := world.store, frame := [] }
  have hv := stage.valid_enter hs.bounded hcaptured hargument param
  obtain ⟨later, hstore, _, _, _, hr⟩ := evaluate_agrees budget body hv
  have hcall : outcome (call budget (.closure param body captured) argument) world.store =
      outcome (evaluate budget body stage.store.scopes.size)
        (stage.enter captured param argument argument').store := rfl
  rw [hcall, ← hstore]
  refine SameResult.imp ?_ hr
  intro value read h
  exact h.preserved (preserved_anyScope _ _)

theorem SameResult.join {α β γ : Type} {related : α → γ → Prop} {related' : β → γ → Prop}
    {result : Except Fault α} {result' : Except Fault β} {common : Except Fault γ}
    (h : SameResult related result common) (h' : SameResult related' result' common) :
    SameResult (fun a b => ∃ c, related a c ∧ related' b c) result result' := by
  cases h with
  | error fault =>
    cases h'
    exact .error fault
  | ok hac =>
    cases h' with
    | ok hbc => exact .ok ⟨_, hac, hbc⟩

/-- A call in two worlds, one after the other, with budgets that suffice. -/
theorem call_same {world later : World} (hs : world.Sound) (hs' : later.Sound)
    (hleads : world.Leads later) {param : Option String} {body : Expr} {captured : ScopeId}
    {argument : Value} (hcaptured : world.frozen captured) (hargument : world.Knows argument)
    {budget budget' : Nat}
    (h : ¬ RanOut (outcome (call budget (.closure param body captured) argument) world.store).1)
    (h' : ¬ RanOut
      (outcome (call budget' (.closure param body captured) argument) later.store).1) :
    SameResult (SameValue
        (outcome (call budget (.closure param body captured) argument) world.store).2
        (outcome (call budget' (.closure param body captured) argument) later.store).2)
      (outcome (call budget (.closure param body captured) argument) world.store).1
      (outcome (call budget' (.closure param body captured) argument) later.store).1 := by
  obtain ⟨frames, hframes⟩ := hs.exists_readsScopes hcaptured
  obtain ⟨read, hread⟩ := hs.exists_reads hargument
  rw [← call_prolongs (Nat.le_max_left budget budget') _ _ _ h,
    ← call_prolongs (Nat.le_max_right budget budget') _ _ _ h']
  exact (call_agrees hs hframes hread _).join
    (call_agrees hs' (hframes.preserved hleads.preserved) (hread.preserved hleads.preserved) _)

theorem SameResult.symm_sameValue {store store' : Store} {result result' : Except Fault Value}
    (h : SameResult (SameValue store store') result result') :
    SameResult (SameValue store' store) result' result := by
  cases h with
  | error fault => exact .error fault
  | ok hab =>
    obtain ⟨read, ha, hb⟩ := hab
    exact .ok ⟨read, hb, ha⟩

/-- Every moment of a session has a sound world, and what it leads to comes later. -/
theorem exists_world {limits : Limits} {texts : List String} {moment : List Change}
    (h : moment <+: Program.history limits Program.root texts Program.start) :
    ∃ world, Runs World.start moment world := by
  obtain ⟨rest, hrest⟩ := h
  obtain ⟨last, hlast⟩ := history_runs limits texts World.sound_start
    (fun h : World.start.frozen Program.root => h) (by decide)
  have hlast' : Runs World.start (moment ++ rest) last := by
    rw [hrest]
    exact hlast
  obtain ⟨world, hworld, _⟩ := hlast'.split
  exact ⟨world, hworld⟩

theorem Runs.leads_of_isPrefix {start world later : World} {moment moment' : List Change}
    (hs : start.Sound) (h : Runs start moment world) (h' : Runs start moment' later)
    (hle : moment <+: moment') : world.Leads later := by
  obtain ⟨rest, rfl⟩ := hle
  obtain ⟨world', hearly, hlate⟩ := h'.split
  have heq : world' = world := hearly.unique h
  subst heq
  exact (hlate.sound_leads (h.sound_leads hs).1).2

/-- A moment of a session that interprets texts, no earlier than another one. -/
def Program.IsMoment (limits : Limits) (texts : List String) (earlier moment : List Change) :
    Prop :=
  earlier <+: moment ∧ moment <+: Program.history limits Program.root texts Program.start

/-- From the moment at which a closure is made, every scope on its chain stays as it is, and the
root scope is none of them. Called with one argument at any two later moments, the closure gives
the same fault or the same value. -/
theorem closure_frozen_and_repeatable (limits : Limits) (texts : List String)
    {early made : List Change} {scope : ScopeId} {param : Option String} {body : Expr}
    (hearly : made = early ++ [.capture scope param body])
    (hmade : made <+: Program.history limits Program.root texts Program.start) :
    let captured := (Program.start.after early).scopes.size
    (∀ id, (Program.start.after made).OnChain captured id →
      id ≠ Program.root ∧
      ∀ moment, Program.IsMoment limits texts made moment →
        (Program.start.after moment).get? id = (Program.start.after made).get? id) ∧
    ∀ moment moment' argument budget budget',
      Program.IsMoment limits texts made moment → Program.IsMoment limits texts made moment' →
      Made Program.start moment argument → Made Program.start moment' argument →
      let first := outcome (call budget (.closure param body captured) argument)
        (Program.start.after moment)
      let second := outcome (call budget' (.closure param body captured) argument)
        (Program.start.after moment')
      ¬ RanOut first.1 → ¬ RanOut second.1 →
      SameResult (SameValue first.2 second.2) first.1 second.1 := by
  intro captured
  have hs := World.sound_start
  obtain ⟨world, hworld⟩ := exists_world hmade
  have hsw := (hworld.sound_leads hs).1
  have hstore : world.store = Program.start.after made := hworld.store_eq
  have hclosure : Made Program.start made (.closure param body captured) := .closure hearly
  have hknows : world.Knows (.closure param body captured) := Made.knows hclosure hworld hs
  have hfrozen : world.frozen captured := hknows
  refine ⟨?_, ?_⟩
  · intro id hchain
    rw [← hstore] at hchain ⊢
    have hid := hchain.frozen hsw hfrozen
    refine ⟨?_, ?_⟩
    · rintro rfl
      exact (hworld.sound_leads hs).2.live (fun h : World.start.frozen _ => h) (by decide) hid
    · intro moment hmoment
      obtain ⟨later, hlater⟩ := exists_world hmoment.2
      have hleads := Runs.leads_of_isPrefix hs hworld hlater hmoment.1
      have hstore' : later.store = Program.start.after moment := hlater.store_eq
      rw [← hstore']
      exact (hleads.preserved id hid).2
  · intro moment moment' argument budget budget' hmoment hmoment' hargument hargument'
    obtain ⟨first, hfirst⟩ := exists_world hmoment.2
    obtain ⟨second, hsecond⟩ := exists_world hmoment'.2
    have hstore₁ : first.store = Program.start.after moment := hfirst.store_eq
    have hstore₂ : second.store = Program.start.after moment' := hsecond.store_eq
    have hf₁ := ((Runs.leads_of_isPrefix hs hworld hfirst hmoment.1).preserved _ hfrozen).1
    have hf₂ := ((Runs.leads_of_isPrefix hs hworld hsecond hmoment'.1).preserved _ hfrozen).1
    have hs₁ := (hfirst.sound_leads hs).1
    have hs₂ := (hsecond.sound_leads hs).1
    rw [← hstore₁, ← hstore₂]
    intro _ _ h h'
    -- of two moments, one comes first
    rcases List.prefix_or_prefix_of_prefix hmoment.2 hmoment'.2 with hle | hle
    · exact call_same hs₁ hs₂ (Runs.leads_of_isPrefix hs hfirst hsecond hle) hf₁
        (hargument.knows hfirst hs) h h'
    · exact (call_same hs₂ hs₁ (Runs.leads_of_isPrefix hs hsecond hfirst hle) hf₂
        (hargument'.knows hsecond hs) h' h).symm_sameValue

/-- A closure that was made while `k` was one still adds one to four after `k` was bound again. -/
theorem closure_frozen_and_repeatable_adder :
    let texts := ["let k = 1", "let f = |x| => x + k", "let k = 2 / 0", "let k = 2", "f(3)"]
    let body := Expr.binary .add (.ident "x") (.ident "k")
    let made := [Change.bind 0 "k" (.int 1), .capture 0 (some "x") body]
    let last := made ++ [.bind 0 "f" (.closure (some "x") body 1), .bind 0 "k" (.int 2)]
    let first := outcome (call 9 (.closure (some "x") body 1) (.int 4)) (Program.start.after made)
    let second := outcome (call 5 (.closure (some "x") body 1) (.int 4)) (Program.start.after last)
    last <+: Program.history ⟨99, 99⟩ Program.root texts Program.start ∧
      first.1 = .ok (.int 5) ∧ second.1 = .ok (.int 5) ∧
      SameResult (SameValue first.2 second.2) first.1 second.1 := by
  intro texts body made last first second
  have hmade : made <+: Program.history ⟨99, 99⟩ Program.root texts Program.start := by
    decide +kernel
  have hlast : last <+: Program.history ⟨99, 99⟩ Program.root texts Program.start := by
    decide +kernel
  refine ⟨hlast, by decide +kernel, by decide +kernel, ?_⟩
  have h := closure_frozen_and_repeatable ⟨99, 99⟩ texts
    (show made = [Change.bind 0 "k" (.int 1)] ++ [.capture 0 (some "x") body] from rfl) hmade
  exact h.2 made last (.int 4) 9 5 ⟨List.prefix_refl _, hmade⟩ ⟨by decide, hlast⟩ (.int 4) (.int 4)
    (by decide +kernel) (by decide +kernel)

end LetLang
