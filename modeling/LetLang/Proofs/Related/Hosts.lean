import LetLang.Proofs.Related.Evaluation
/-!
# Hosts

A host keeps a root scope. It evaluates expressions and interprets texts in it or in the scopes of
calls, and it calls values that it has come by, in any order and whether they fail or not. All this
respects what closures have captured, so that the root scope and the scopes of calls remain places
for evaluation.
-/
namespace LetLang

open Evaluating

/-! ### Calls -/

/-- The changes that a call makes. -/
def callChanges (budget : Nat) (callee argument : Value) (store : Store) : List Change :=
  match callee with
  | .closure param body captured =>
    let opened := store.child captured (param.map (·, argument)).toList
    .enter captured (param.map (·, argument)) :: changes budget body opened.1 opened.2
  | _ => []

/-- Carrying out the changes of a call gives the store that it leaves. -/
theorem call_store_eq_after (budget : Nat) (callee argument : Value) (store : Store) :
    (outcome (call budget callee argument) store).2 =
      store.after (callChanges budget callee argument store) := by
  cases callee with
  | closure param body captured => exact evaluate_store_eq_after budget body _ _
  | unit | int | bool => rfl

theorem call_tracks {world : World} {callee argument : Value} (hs : world.Sound)
    (hcallee : world.Knows callee) (hargument : world.Knows argument) (budget : Nat) :
    Tracks world (call budget callee argument) (callChanges budget callee argument world.store)
      World.Knows := by
  cases callee with
  | closure param body captured =>
    have fits := fits_enter hcallee hargument
    have hopened := hs.open_opened fits
    exact .cons _ fits rfl (evaluate_tracks budget body hopened.sound hopened.live hopened.lt)
  | unit | int | bool => exact tracks_complain _

/-! ### Histories -/

/-- The scopes in which expressions are evaluated: the root scope and those that calls have
opened. -/
inductive Program.Active (done : List Change) : ScopeId → Prop
  | root : Active done root
  | call {early late : List Change} {captured : ScopeId} {binding : Option (String × Value)}
      (h : done = early ++ .enter captured binding :: late) :
      Active done (start.after early).scopes.size

/-- The changes that a host has made since the beginning, up to any moment, which may be one amid
an evaluation. -/
inductive Program.Hosted : List Change → Prop
  | start : Hosted []
  | evaluate {done : List Change} {scope : ScopeId} (h : Hosted done) (hscope : Active done scope)
      (budget : Nat) (expr : Expr) : Hosted (done ++ changes budget expr scope (start.after done))
  | interpret {done : List Change} {scope : ScopeId} (h : Hosted done) (hscope : Active done scope)
      (limits : Limits) (text : String) :
      Hosted (done ++ changesInOrder limits.evaluation scope (expressions limits.parsing text).1
        (start.after done))
  | call {done : List Change} {callee argument : Value} (h : Hosted done)
      (hcallee : Made start done callee) (hargument : Made start done argument) (budget : Nat) :
      Hosted (done ++ callChanges budget callee argument (start.after done))
  | moment {done moment : List Change} (h : Hosted done) (hle : moment <+: done) : Hosted moment

/-- The world after what was done. -/
def Program.WorldAfter (done : List Change) (world : World) : Prop :=
  Runs World.start done world

namespace Program.WorldAfter

variable {done made : List Change} {world : World}

theorem store_eq (h : WorldAfter done world) : world.store = start.after done :=
  Runs.store_eq h

theorem sound (h : WorldAfter done world) : world.Sound :=
  (Runs.sound_leads h World.sound_start).1

theorem knows {value : Value} (h : WorldAfter done world) (hvalue : Made start done value) :
    world.Knows value :=
  Made.knows hvalue h World.sound_start

theorem after_runs {later : World} (h : WorldAfter done world) (hruns : Runs world made later) :
    WorldAfter (done ++ made) later :=
  Runs.append h hruns

theorem leads {later : World} {moment : List Change} (h : WorldAfter done world)
    (h' : WorldAfter moment later) (hle : done <+: moment) : world.Leads later :=
  Runs.leads_of_isPrefix World.sound_start h h' hle

/-- A scope in which expressions are evaluated is never captured itself. -/
theorem open_of_active {scope : ScopeId} (h : WorldAfter done world) (hscope : Active done scope) :
    Site.Open ⟨world, scope⟩ := by
  cases hscope with
  | root =>
    have hopen : Site.Open ⟨World.start, root⟩ :=
      ⟨World.sound_start, fun h : World.start.frozen root => h, by decide⟩
    exact hopen.moved h.sound (Runs.sound_leads h World.sound_start).2
  | @call early late captured binding hdone =>
    subst hdone
    obtain ⟨before, hearly, hlate⟩ := Runs.split h
    have hbefore : WorldAfter early before := hearly
    cases hlate with
    | cons fits rest =>
      have hopen := hbefore.sound.open_opened fits
      rw [← hbefore.store_eq]
      exact hopen.moved h.sound (rest.sound_leads hopen.sound).2

end Program.WorldAfter

theorem Program.Hosted.exists_worldAfter {done : List Change} (h : Hosted done) :
    ∃ world, WorldAfter done world := by
  induction h with
  | start => exact ⟨World.start, .nil _⟩
  | evaluate _ hscope budget expr ih =>
    obtain ⟨world, hworld⟩ := ih
    have hopen := hworld.open_of_active hscope
    obtain ⟨later, hruns, -⟩ := evaluate_tracks budget expr hopen.sound hopen.live hopen.lt
    rw [hworld.store_eq] at hruns
    exact ⟨later, hworld.after_runs hruns⟩
  | interpret _ hscope limits text ih =>
    obtain ⟨world, hworld⟩ := ih
    have hopen := hworld.open_of_active hscope
    obtain ⟨later, hruns, -⟩ := inOrder_tracks limits.evaluation none
      (Program.expressions limits.parsing text).1 hopen.sound hopen.live hopen.lt
    rw [hworld.store_eq] at hruns
    exact ⟨later, hworld.after_runs hruns⟩
  | call _ hcallee hargument budget ih =>
    obtain ⟨world, hworld⟩ := ih
    obtain ⟨later, hruns, -⟩ := call_tracks hworld.sound (hworld.knows hcallee)
      (hworld.knows hargument) budget
    rw [hworld.store_eq] at hruns
    exact ⟨later, hworld.after_runs hruns⟩
  | moment _ hle ih =>
    obtain ⟨world, hworld⟩ := ih
    obtain ⟨rest, rfl⟩ := hle
    obtain ⟨before, hbefore, -⟩ := Runs.split hworld
    exact ⟨before, hbefore⟩

end LetLang
