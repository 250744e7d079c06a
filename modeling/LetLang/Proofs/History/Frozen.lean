import LetLang.Proofs.History
import LetLang.Proofs.Immutable.Stage
/-!
# Frozen scopes

The scopes that closures capture are frozen from the moment they are made: a history binds only in
scopes that are not frozen, and around a scope there are only frozen ones. A frozen scope holds
closures that are older than itself, so that reading its values comes to an end.
-/
namespace LetLang

open Immutable (Frame)

/-- A store, with the scopes in it that were captured. -/
structure World where
  frozen : ScopeId → Prop
  store : Store

/-- Whether the scope that a closure has captured is among the given ones. -/
def Value.Within (frozen : ScopeId → Prop) : Value → Prop
  | .closure _ _ captured => frozen captured
  | _ => True

theorem Value.Within.mono {frozen frozen' : ScopeId → Prop} {value : Value}
    (h : value.Within frozen) (hle : ∀ id, frozen id → frozen' id) : value.Within frozen' := by
  cases value with
  | closure param body captured => exact hle captured h
  | unit | int | bool => trivial

theorem Value.within_of_ne_closure {frozen : ScopeId → Prop} {value : Value}
    (h : ∀ param body captured, value ≠ .closure param body captured) : value.Within frozen := by
  cases value with
  | closure param body captured => exact absurd rfl (h param body captured)
  | unit | int | bool => trivial

namespace World

structure Sound (world : World) : Prop where
  bounded : ∀ id, world.frozen id → id < world.store.scopes.size
  outer : ∀ id scope outer, world.store.get? id = some scope → scope.outer = some outer →
    world.frozen outer ∧ outer < id
  values : ∀ id scope name value, world.store.get? id = some scope →
    scope.get? name = some value → value.Within world.frozen
  older : ∀ id scope name value, world.frozen id → world.store.get? id = some scope →
    scope.get? name = some value → value.Within (· < id)

/-- What changes leave alone: the captured scopes stay, and only new ones are captured. -/
structure Leads (world later : World) : Prop where
  size : world.store.scopes.size ≤ later.store.scopes.size
  preserved : Preserved world.frozen later.frozen world.store later.store
  fresh : ∀ id, later.frozen id → world.frozen id ∨ world.store.scopes.size ≤ id

theorem Leads.refl (world : World) : world.Leads world where
  size := Nat.le_refl _
  preserved _ h := ⟨h, rfl⟩
  fresh _ h := .inl h

theorem Leads.trans {world later last : World} (h : world.Leads later) (h' : later.Leads last) :
    world.Leads last where
  size := Nat.le_trans h.size h'.size
  preserved id hid :=
    have hl := h.preserved id hid
    have hl' := h'.preserved id hl.1
    ⟨hl'.1, hl'.2.trans hl.2⟩
  fresh id hid := by
    rcases h'.fresh id hid with hid | hid
    · exact h.fresh id hid
    · exact .inr (Nat.le_trans h.size hid)

/-- A scope that is there and not frozen never becomes frozen. -/
theorem Leads.live {world later : World} (h : world.Leads later) {id : ScopeId}
    (hid : ¬ world.frozen id) (hlt : id < world.store.scopes.size) : ¬ later.frozen id := by
  intro hlater
  rcases h.fresh id hlater with hf | hf
  · exact hid hf
  · exact Nat.not_lt.2 hf hlt

/-- A new scope may stand within a captured one and hold values that captured such ones. It may be
frozen at once, since all of these are older. -/
theorem Sound.alloc {world : World} (hs : world.Sound) {own : Scope} {frozen : ScopeId → Prop}
    (houter : ∀ outer, own.outer = some outer → world.frozen outer)
    (hvalues : ∀ name value, own.get? name = some value → value.Within world.frozen)
    (hle : ∀ id, world.frozen id → frozen id)
    (hnew : ∀ id, frozen id → world.frozen id ∨ id = world.store.scopes.size) :
    Sound { frozen, store := (world.store.alloc own).2 } := by
  refine ⟨?_, ?_, ?_, ?_⟩
  · intro id hid
    rw [Store.size_alloc]
    rcases hnew id hid with h | rfl
    · exact Nat.lt_succ_of_lt (hs.bounded id h)
    · exact Nat.lt_succ_self _
  · intro id scope outer hget ho
    rw [Store.get?_alloc] at hget
    by_cases hid : id = world.store.scopes.size
    · subst hid
      rw [if_pos rfl, Option.some.injEq] at hget
      subst hget
      exact ⟨hle outer (houter outer ho), hs.bounded outer (houter outer ho)⟩
    · rw [if_neg hid] at hget
      exact (hs.outer id scope outer hget ho).imp_left (hle outer)
  · intro id scope name value hget hv
    rw [Store.get?_alloc] at hget
    split at hget
    · rw [Option.some.injEq] at hget
      subst hget
      exact (hvalues name value hv).mono hle
    · exact (hs.values id scope name value hget hv).mono hle
  · intro id scope name value hid hget hv
    rw [Store.get?_alloc] at hget
    rcases hnew id hid with h | rfl
    · rw [if_neg (Nat.ne_of_lt (hs.bounded id h))] at hget
      exact hs.older id scope name value h hget hv
    · rw [if_pos rfl, Option.some.injEq] at hget
      subst hget
      exact (hvalues name value hv).mono hs.bounded

/-- Binding keeps a world sound, if the scope is not frozen and the value is known. -/
theorem Sound.bind {world : World} (hs : world.Sound) {target : ScopeId} (name : String)
    {value : Value} (hlive : ¬ world.frozen target) (hvalue : value.Within world.frozen) :
    Sound { world with store := world.store.bind target name value } := by
  refine ⟨?_, ?_, ?_, ?_⟩
  · intro id hid
    simpa using hs.bounded id hid
  · intro id scope outer hget ho
    by_cases hid : id = target
    · subst hid
      rw [Store.get?_bind_self] at hget
      obtain ⟨own, hown, rfl⟩ := Option.map_eq_some_iff.1 hget
      exact hs.outer id own outer hown ho
    · rw [Store.get?_bind_of_ne name value hid] at hget
      exact hs.outer id scope outer hget ho
  · intro id scope key bound hget hv
    by_cases hid : id = target
    · subst hid
      rw [Store.get?_bind_self] at hget
      obtain ⟨own, hown, rfl⟩ := Option.map_eq_some_iff.1 hget
      rw [Scope.get?_put] at hv
      split at hv
      · cases hv
        exact hvalue
      · exact hs.values id own key bound hown hv
    · rw [Store.get?_bind_of_ne name value hid] at hget
      exact hs.values id scope key bound hget hv
  · intro id scope key bound hid hget hv
    have hne : id ≠ target := fun h => hlive (h ▸ hid)
    rw [Store.get?_bind_of_ne name value hne] at hget
    exact hs.older id scope key bound hid hget hv

end World

namespace Change

/-- The world after a change; capturing freezes the copy. -/
def step (change : Change) (world : World) : World where
  frozen :=
    match change with
    | capture _ _ _ => fun id => world.frozen id ∨ id = world.store.scopes.size
    | _ => world.frozen
  store := change.apply world.store

/-- Whether a change respects what is frozen. -/
def Fits (world : World) : Change → Prop
  | bind scope _ value => ¬ world.frozen scope ∧ value.Within world.frozen
  | enter captured binding =>
    world.frozen captured ∧ ∀ pair, binding = some pair → pair.2.Within world.frozen
  | capture scope _ _ => ¬ world.frozen scope

theorem step_leads {change : Change} {world : World} (hs : world.Sound) (h : change.Fits world) :
    world.Leads (change.step world) := by
  cases change with
  | bind scope name value =>
    refine ⟨by simp [step, apply], ?_, fun _ h => .inl h⟩
    intro id hid
    refine ⟨hid, Store.get?_bind_of_ne name value ?_⟩
    rintro rfl
    exact h.1 hid
  | enter captured binding =>
    refine ⟨by simp [step, apply, Store.child], ?_, fun _ h => .inl h⟩
    intro id hid
    refine ⟨hid, ?_⟩
    simp [step, apply, Store.child, Nat.ne_of_lt (hs.bounded id hid)]
  | capture scope param body =>
    refine ⟨by simp [step, apply, Store.snapshot], ?_, ?_⟩
    · intro id hid
      refine ⟨.inl hid, ?_⟩
      simp [step, apply, Store.snapshot, Nat.ne_of_lt (hs.bounded id hid)]
    · intro id hid
      exact hid.imp_right fun h => Nat.le_of_eq h.symm

theorem step_sound {change : Change} {world : World} (hs : world.Sound) (h : change.Fits world) :
    (change.step world).Sound := by
  cases change with
  | bind scope name value => exact hs.bind name h.1 h.2
  | enter captured binding =>
    refine hs.alloc ?_ ?_ (fun _ h => h) (fun _ h => .inl h)
    · intro outer houter
      cases houter
      exact h.1
    · intro name value hv
      rw [Scope.get?_ofList_toList] at hv
      cases binding with
      | none => cases hv
      | some pair =>
        rw [Option.toList_some, lookup_cons_eq_ite] at hv
        split at hv
        · cases hv
          exact h.2 pair rfl
        · cases hv
  | capture scope param body =>
    refine hs.alloc ?_ ?_ (fun _ h => .inl h) (fun _ h => h)
    · intro outer houter
      cases hget : world.store.get? scope with
      | none => simp [hget] at houter
      | some own =>
        rw [hget, Option.getD_some] at houter
        exact (hs.outer scope own outer hget houter).1
    · intro name value hv
      cases hget : world.store.get? scope with
      | none => simp [hget, Scope.get?] at hv
      | some own =>
        rw [hget, Option.getD_some] at hv
        exact hs.values scope own name value hget hv

end Change

/-! ### Histories that respect what is frozen -/

/-- The changes, carried out in order, lead from one world to another and each fits where it
happens. -/
inductive Runs : World → List Change → World → Prop
  | nil (world : World) : Runs world [] world
  | cons {world later : World} {change : Change} {changes : List Change}
      (fits : change.Fits world) (rest : Runs (change.step world) changes later) :
      Runs world (change :: changes) later

namespace Runs

variable {world later last : World} {early late : List Change}

theorem append (h : Runs world early later) (h' : Runs later late last) :
    Runs world (early ++ late) last := by
  induction h with
  | nil => exact h'
  | cons fits _ ih => exact .cons fits (ih h')

theorem split (h : Runs world (early ++ late) last) :
    ∃ later, Runs world early later ∧ Runs later late last := by
  induction early generalizing world with
  | nil => exact ⟨world, .nil world, h⟩
  | cons change early ih =>
    cases h with
    | cons fits rest =>
      obtain ⟨later, hearly, hlate⟩ := ih rest
      exact ⟨later, .cons fits hearly, hlate⟩

theorem store_eq (h : Runs world early later) : later.store = world.store.after early := by
  induction h with
  | nil => rfl
  | cons _ _ ih => exact ih

theorem unique (h : Runs world early later) (h' : Runs world early last) : later = last := by
  induction h with
  | nil =>
    cases h'
    rfl
  | cons _ _ ih =>
    cases h' with
    | cons _ rest => exact ih rest

/-- A whole run keeps what one step keeps. -/
theorem sound_leads (h : Runs world early later) (hs : world.Sound) :
    later.Sound ∧ world.Leads later := by
  induction h with
  | nil => exact ⟨hs, .refl _⟩
  | cons fits _ ih =>
    obtain ⟨hlater, hleads⟩ := ih (Change.step_sound hs fits)
    exact ⟨hlater, (Change.step_leads hs fits).trans hleads⟩

end Runs

/-- The changes of a computation respect what is frozen, and what is `known` of its result holds in
the world after them. -/
def Tracks {α : Type} (world : World) (x : Evaluating α) (changes : List Change)
    (known : World → α → Prop) : Prop :=
  ∃ later, Runs world changes later ∧ later.store = (outcome x world.store).2 ∧
    ∀ a, (outcome x world.store).1 = .ok a → known later a

section Tracks

variable {α β : Type} {world : World} {known : World → α → Prop}

theorem tracks_of_unchanged {x : Evaluating α} (hstore : (outcome x world.store).2 = world.store)
    (h : ∀ a, (outcome x world.store).1 = .ok a → known world a) : Tracks world x [] known :=
  ⟨world, .nil world, hstore.symm, h⟩

theorem tracks_complain (error : Option LanguageError) :
    Tracks world (Evaluating.lift (Value.complain error)) [] known := by
  apply tracks_of_unchanged rfl
  intro a h
  cases error <;> cases h

theorem Tracks.bind {known' : World → β → Prop} {x : Evaluating α} {f : α → Evaluating β}
    {early : List Change} {next : α → Store → List Change} (hs : world.Sound)
    (hx : Tracks world x early known)
    (hf : ∀ later a, later.Sound → world.Leads later → known later a →
      Tracks later (f a) (next a later.store) known') :
    Tracks world (x >>= f) (early ++ followed x world.store next) known' := by
  obtain ⟨later, hruns, hstore, hknown⟩ := hx
  obtain ⟨hs', hleads⟩ := hruns.sound_leads hs
  unfold Tracks followed
  rw [outcome_bind]
  rcases h : outcome x world.store with ⟨fault | a, store⟩
  · rw [h] at hstore
    refine ⟨later, by simpa using hruns, hstore, ?_⟩
    intro a ha
    cases ha
  · rw [h] at hstore hknown
    obtain ⟨last, hruns', hstore', hknown'⟩ := hf later a hs' hleads (hknown a rfl)
    simp only at hstore
    rw [← hstore]
    exact ⟨last, hruns.append hruns', hstore', hknown'⟩

theorem Tracks.lift {known' : World → β → Prop} {x : Evaluating α} {g : α → Except Fault β}
    {early : List Change} (hx : Tracks world x early known)
    (hg : ∀ later a b, known later a → g a = .ok b → known' later b) :
    Tracks world (x >>= fun a => Evaluating.lift (g a)) early known' := by
  obtain ⟨later, hruns, hstore, hknown⟩ := hx
  refine ⟨later, hruns, ?_⟩
  rw [outcome_bind]
  rcases h : outcome x world.store with ⟨fault | a, store⟩
  · rw [h] at hstore
    exact ⟨hstore, fun a ha => by cases ha⟩
  · rw [h] at hstore hknown
    exact ⟨hstore, fun b hb => hg later a b (hknown a rfl) hb⟩

/-- A change that fits may come first. -/
theorem Tracks.cons {y : Evaluating β} {f : β → Evaluating α} {b : β} {rest : List Change}
    (change : Change) (fits : change.Fits world)
    (hy : outcome y world.store = (.ok b, change.apply world.store))
    (h : Tracks (change.step world) (f b) rest known) :
    Tracks world (y >>= f) (change :: rest) known := by
  obtain ⟨later, hruns, hstore, hknown⟩ := h
  refine ⟨later, .cons fits hruns, ?_⟩
  rw [outcome_bind_of_ok hy]
  exact ⟨hstore, hknown⟩

end Tracks

/-- What a value has captured is frozen. -/
def World.Knows (world : World) (value : Value) : Prop :=
  value.Within world.frozen

theorem World.Knows.leads {world later : World} {value : Value} (h : world.Knows value)
    (hleads : world.Leads later) : later.Knows value :=
  h.mono fun id hid => (hleads.preserved id hid).1

/-- Whatever a lookup finds is known. -/
theorem World.Sound.knows_of_lookup? {world : World} (hs : world.Sound) {id : ScopeId}
    {name : String} {value : Value} (h : world.store.lookup? id name = some value) :
    world.Knows value := by
  obtain ⟨holder, scope, hget, hvalue⟩ := Store.exists_get?_of_lookup? h
  exact hs.values holder scope name value hget hvalue

/-- Evaluation in a scope that is not frozen changes nothing that is. -/
theorem evaluate_tracks (budget : Nat) (expr : Expr) {world : World} {scope : ScopeId}
    (hs : world.Sound) (hlive : ¬ world.frozen scope) (hlt : scope < world.store.scopes.size) :
    Tracks world (evaluate budget expr scope) (changes budget expr scope world.store)
      World.Knows := by
  induction budget generalizing expr world scope with
  | zero => exact tracks_of_unchanged rfl (by simp [evaluate])
  | succ budget ih =>
    cases expr with
    | unit | int | bool =>
      apply tracks_of_unchanged rfl
      rintro a ⟨⟩
      trivial
    | datum value => exact tracks_complain _
    | ident name =>
      rw [evaluate]
      apply tracks_of_unchanged <;> rw [outcome_bind, outcome_get] <;> dsimp only
      · cases world.store.lookup? scope name <;> rfl
      · intro value h
        cases hv : world.store.lookup? scope name with
        | none => rw [hv] at h; cases h
        | some found =>
          rw [hv] at h
          cases h
          exact hs.knows_of_lookup? hv
    | binary op left right =>
      refine (ih left hs hlive hlt).bind hs fun later a hs hl _ => ?_
      refine (ih right hs (hl.live hlive hlt) (Nat.lt_of_lt_of_le hlt hl.size)).lift ?_
      intro _ b value _ h
      exact Value.within_of_ne_closure (binary_ne_closure h)
    | unary op operand =>
      refine (ih operand hs hlive hlt).lift fun _ a value _ h => ?_
      exact Value.within_of_ne_closure (unary_ne_closure h)
    | define name bound =>
      refine (ih bound hs hlive hlt).bind hs fun later value hs hl hvalue => ?_
      refine Tracks.cons (.bind scope name value) ⟨hl.live hlive hlt, hvalue⟩ rfl ?_
      apply tracks_of_unchanged rfl
      rintro a ⟨⟩
      exact hvalue
    | letIn name bound body =>
      refine (ih bound hs hlive hlt).bind hs fun later value hs hl hvalue => ?_
      have fits : (Change.bind scope name value).Fits later := ⟨hl.live hlive hlt, hvalue⟩
      refine Tracks.cons _ fits rfl (ih body (Change.step_sound hs fits) (hl.live hlive hlt) ?_)
      simpa [Change.step, Change.apply] using Nat.lt_of_lt_of_le hlt hl.size
    | ifThen cond yes =>
      refine (ih cond hs hlive hlt).bind hs fun later value hs hl _ => ?_
      have hlt' := Nat.lt_of_lt_of_le hlt hl.size
      rcases value with _ | _ | (_ | _) | _
      case bool.true => exact ih yes hs (hl.live hlive hlt) hlt'
      case bool.false =>
        apply tracks_of_unchanged rfl
        rintro a ⟨⟩
        trivial
      all_goals exact tracks_complain _
    | ifThenElse cond yes no =>
      refine (ih cond hs hlive hlt).bind hs fun later value hs hl _ => ?_
      have hlt' := Nat.lt_of_lt_of_le hlt hl.size
      rcases value with _ | _ | (_ | _) | _
      case bool.true => exact ih yes hs (hl.live hlive hlt) hlt'
      case bool.false => exact ih no hs (hl.live hlive hlt) hlt'
      all_goals exact tracks_complain _
    | fn param body =>
      refine Tracks.cons (.capture scope param body) hlive rfl ?_
      apply tracks_of_unchanged rfl
      rintro a ⟨⟩
      exact .inr rfl
    | apply callee argument =>
      refine (ih callee hs hlive hlt).bind hs fun later f hs hl hf => ?_
      have hlive' := hl.live hlive hlt
      have hlt' := Nat.lt_of_lt_of_le hlt hl.size
      cases f with
      | closure param body captured =>
        refine (ih argument hs hlive' hlt').bind hs fun last a hs' hl' ha => ?_
        have fits : (Change.enter captured (param.map (·, a))).Fits last := by
          refine ⟨hf.leads hl', ?_⟩
          intro pair hpair
          obtain ⟨_, _, rfl⟩ := Option.map_eq_some_iff.1 hpair
          exact ha
        refine Tracks.cons _ fits rfl (ih body (Change.step_sound hs' fits) ?_ ?_)
        · intro hfrozen
          exact Nat.lt_irrefl _ (hs'.bounded _ hfrozen)
        · simp [Change.step, Change.apply, Store.child]
      | unit | int | bool => exact tracks_complain _

end LetLang
