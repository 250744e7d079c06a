import LetLang.Proofs.Parsing.Currying
import LetLang.Proofs.Related.Application
import LetLang.Proofs.Related.Hosts
/-!
# Currying

The closure of a function literal with several parameters is called with one argument at a time,
and each call but the last gives a closure that waits for the next argument. In the end the body is
evaluated in a scope that resolves the parameters to the arguments and every other name as the
literal's scope did when the literal was evaluated, whatever the host has done between the calls.
-/
namespace LetLang

open Evaluating

/-! ### Calls in turn -/

/-- After what was done, the host comes to a moment at which it has the argument at hand. -/
structure Program.Ready (done moment : List Change) (argument : Value) : Prop where
  hosted : Hosted moment
  later : done <+: moment
  made : Made start moment argument

/-- The callee is called with the first argument, the result with the next one, and so on, up to a
call that fails. Each call has at least the given budget. The last one takes place at `last`, and
`result` comes of it. -/
inductive CallsInTurn (least : Nat) : (done : List Change) → (callee : Value) →
    (arguments : List Value) → (last : List Change) → (result : Except Fault Value × Store) → Prop
  | last {done moment : List Change} {callee argument : Value}
      (ready : Program.Ready done moment argument) {budget : Nat} (hle : least ≤ budget) :
      CallsInTurn least done callee [argument] moment
        (outcome (call budget callee argument) (Program.start.after moment))
  | failed {done moment : List Change} {callee argument next : Value} {arguments : List Value}
      {fault : Fault} {store : Store} (ready : Program.Ready done moment argument) {budget : Nat}
      (hle : least ≤ budget)
      (h : outcome (call budget callee argument) (Program.start.after moment) =
        (.error fault, store)) :
      CallsInTurn least done callee (argument :: next :: arguments) moment (.error fault, store)
  | next {done moment last : List Change} {callee argument next inner : Value}
      {arguments : List Value} {store : Store} {result : Except Fault Value × Store}
      (ready : Program.Ready done moment argument) {budget : Nat} (hle : least ≤ budget)
      (h : outcome (call budget callee argument) (Program.start.after moment) = (.ok inner, store))
      (rest : CallsInTurn least
        (moment ++ callChanges budget callee argument (Program.start.after moment)) inner
        (next :: arguments) last result) :
      CallsInTurn least done callee (argument :: next :: arguments) last result

/-- What names are resolved to if parameters are bound to arguments, of equal names the last one,
and the other names are resolved as before. -/
def resolved (names : List String) (values : List Value) (outer : String → Option Value)
    (name : String) : Option Value :=
  ((names.zip values).reverse.lookup name).or (outer name)

/-- Binding the first parameter and then the others is binding all of them. -/
theorem resolved_cons (name : String) (names : List String) (value : Value) (values : List Value)
    (outer : String → Option Value) :
    resolved (name :: names) (value :: values) outer =
      resolved names values (resolved [name] [value] outer) := by
  funext key
  simp [resolved, List.lookup_append, Option.or_assoc]

/-- The result comes of evaluating the body at a site that resolves names as given, in a world that
comes after the given moment. -/
structure EvaluatedAt (last : List Change) (body : Expr) (lookup : String → Option Value)
    (result : Except Fault Value × Store) (world : World) (site : Site) (budget : Nat) : Prop where
  after : Program.WorldAfter last world
  site_open : site.Open
  leads : world.Leads site.world
  lookup_eq : ∀ name, site.lookup? name = lookup name
  knows : ∀ name value, lookup name = some value → world.Knows value
  result_eq : result = outcome (evaluate budget body site.scope) site.world.store

section Turns

variable {least : Nat} {done last : List Change} {world : World} {body : Expr}
  {captured : ScopeId} {values : List Value} {result : Except Fault Value × Store}

/-- One call: the scope that it opens resolves the parameter to the argument and other names as
captured. -/
theorem Program.WorldAfter.opened {moment : List Change} {argument : Value}
    (hworld : Program.WorldAfter done world) (hcaptured : world.frozen captured)
    (hready : Program.Ready done moment argument) (param : String) :
    ∃ later, Program.WorldAfter moment later ∧
      (Change.enter captured (some (param, argument))).Fits later ∧
      (∀ name value, resolved [param] [argument] (world.store.lookup? captured) name = some value →
        later.Knows value) ∧
      ∀ name, (later.opened captured (some (param, argument))).lookup? name =
        resolved [param] [argument] (world.store.lookup? captured) name := by
  obtain ⟨later, hlater⟩ := hready.hosted.exists_worldAfter
  have hl := hworld.leads hlater hready.later
  have hfrozen : later.frozen captured := (hl.preserved captured hcaptured).1
  have fits : (Change.enter captured (some (param, argument))).Fits later := by
    refine ⟨hfrozen, ?_⟩
    rintro _ ⟨⟩
    exact hlater.knows hready.made
  have hlookup : ∀ name, (later.opened captured (some (param, argument))).lookup? name =
      resolved [param] [argument] (world.store.lookup? captured) name := by
    intro name
    rw [hlater.sound.lookup?_opened fits,
      hworld.sound.lookup?_eq_of_frozen hl hcaptured]
    rfl
  refine ⟨later, hlater, fits, fun name value hvalue => ?_, hlookup⟩
  rw [← hlookup] at hvalue
  exact (hlater.sound.open_opened fits).sound.knows_of_lookup? hvalue

/-- A call of a closure whose body is a literal gives a closure, if there is any budget. -/
theorem outcome_call_fn (budget : Nat) (param second : String) (argument : Value) (store : Store) :
    let opened := store.child captured [(param, argument)]
    let copied := opened.2.snapshot opened.1
    outcome (call (budget + 1) (.closure (some param) (.fn (some second) body) captured) argument)
        store = (.ok (.closure (some second) body copied.1), copied.2) :=
  rfl

theorem made_waiting (budget : Nat) (param second : String) (argument : Value)
    (done : List Change) :
    let store := Program.start.after done
    let opened := store.child captured [(param, argument)]
    Made Program.start (done ++ callChanges (budget + 1)
        (.closure (some param) (.fn (some second) body) captured) argument store)
      (.closure (some second) body (opened.2.snapshot opened.1).1) := by
  intro store opened
  let enter := Change.enter captured (some (param, argument))
  let capture := Change.capture opened.1 (some second) body
  have hdone : done ++ [enter, capture] = (done ++ [enter]) ++ [capture] := by simp
  have hmade := @Made.closure Program.start _ _ _ _ _ _ hdone
  rw [Store.after_append] at hmade
  exact hmade

/-- This closure has captured a copy of the scope that the call has opened. -/
theorem Program.WorldAfter.waiting {moment : List Change} {argument : Value}
    (hworld : Program.WorldAfter done world) (hcaptured : world.frozen captured)
    (hready : Program.Ready done moment argument) (budget : Nat) (param second : String) :
    let store := Program.start.after moment
    let opened := store.child captured [(param, argument)]
    let copy := (opened.2.snapshot opened.1).1
    ∃ later, Program.WorldAfter (moment ++ callChanges (budget + 1)
        (.closure (some param) (.fn (some second) body) captured) argument store) later ∧
      later.frozen copy ∧ ∀ name, later.store.lookup? copy name =
        resolved [param] [argument] (world.store.lookup? captured) name := by
  intro store opened copy
  obtain ⟨later, hlater, fits, -, hlookup⟩ := hworld.opened hcaptured hready param
  let site := later.opened captured (some (param, argument))
  have hsite : site.Open := hlater.sound.open_opened fits
  have fits' : (Change.capture site.scope (some second) body).Fits site.world := hsite.live
  have hcopy : copy = site.world.store.scopes.size := by
    simp only [copy, opened, store, ← hlater.store_eq]
    rfl
  refine ⟨(Change.capture site.scope (some second) body).step site.world, ?_, ?_, ?_⟩
  · simp only [store, ← hlater.store_eq]
    exact hlater.after_runs (.cons fits (.cons fits' (.nil _)))
  · rw [hcopy]
    exact .inr rfl
  · intro name
    rw [hcopy, ← hlookup]
    exact hsite.lookup?_capture (some second) body name

/-- Calls in turn come to one evaluation of the body. -/
theorem CallsInTurn.exists_evaluatedAt {param : String} {params : List String}
    (hworld : Program.WorldAfter done world)
    (hcaptured : world.frozen captured) (hlength : values.length = params.length + 1)
    (h : CallsInTurn least done
      (.closure (some param) (params.foldr (fun name inner => .fn (some name) inner) body) captured)
      values last result) (hleast : 0 < least) :
    ∃ later site budget, least ≤ budget ∧ EvaluatedAt last body
      (resolved (param :: params) values (world.store.lookup? captured)) result later site
      budget := by
  -- On the parameters to come. What carries over is that the captured scope of the closure at hand
  -- is frozen, and what it resolves: nothing between two calls can change that.
  induction params generalizing done world param captured values with
  | nil =>
    obtain ⟨argument, rfl⟩ := List.length_eq_one_iff.1 hlength
    cases h with
    | @last _ _ _ _ ready budget hle =>
      obtain ⟨later, hlater, fits, hknows, hlookup⟩ := hworld.opened hcaptured ready param
      refine ⟨later, _, budget, hle, hlater, hlater.sound.open_opened fits,
        Change.step_leads hlater.sound fits, hlookup, hknows, ?_⟩
      rw [← hlater.store_eq]
      rfl
  | cons second params ih =>
    cases h with
    | last => simp at hlength
    | @failed _ _ _ _ _ _ _ _ _ budget hle h =>
      -- A call that has any budget gives the next closure.
      cases budget with
      | zero => exact absurd hle (Nat.not_le.2 hleast)
      | succ budget =>
        rw [List.foldr_cons, outcome_call_fn] at h
        cases h
    | @next _ _ _ _ _ _ _ _ _ _ ready budget hle h rest =>
      cases budget with
      | zero => cases h
      | succ budget =>
        rw [List.foldr_cons, outcome_call_fn] at h
        cases h
        obtain ⟨later, hlater, hfrozen, hlookup⟩ :=
          hworld.waiting hcaptured ready budget param second
        rw [resolved_cons, ← funext hlookup]
        exact ih hlater hfrozen (by simpa using hlength) rest

end Turns

/-! ### The evaluation that calls come to -/

/-- The result is that of evaluating the body in the scope, unless a budget runs out. The
evaluation ends if the calls do, and the calls end if they have the budget that serves the
evaluation. -/
structure ComesTo (least : Nat) (result : Except Fault Value × Store) (body : Expr)
    (scope : ScopeId) (store : Store) : Prop where
  same : ∀ budget,
    let second := outcome (evaluate budget body scope) store
    ¬ RanOut result.1 → ¬ RanOut second.1 →
      SameResult (Related everyName result.2 second.2) result.1 second.1
  evaluation_ends : ¬ RanOut result.1 →
    ∃ enough, ∀ budget ≥ enough, ¬ RanOut (outcome (evaluate budget body scope) store).1
  calls_end : ∀ budget ≤ least, ¬ RanOut (outcome (evaluate budget body scope) store).1 →
    ¬ RanOut result.1

theorem SameResult.ranOut_iff {α β : Type} {related : α → β → Prop} {result : Except Fault α}
    {result' : Except Fault β} (h : SameResult related result result') :
    RanOut result ↔ RanOut result' := by
  cases h <;> simp

theorem EvaluatedAt.comesTo {least budget : Nat} {last : List Change} {body : Expr}
    {lookup : String → Option Value} {result : Except Fault Value × Store} {world : World}
    {site site' : Site} (h : EvaluatedAt last body lookup result world site budget)
    (hle : least ≤ budget) (hopen : site'.Open)
    (hlookup : ∀ name, RelatedBinding everyName (Program.start.after last) site'.world.store
      (lookup name) (site'.lookup? name)) :
    ComesTo least result body site'.scope site'.world.store := by
  have hagree : Agree everyName (fun _ => True) site site' := by
    intro name _
    have hname := hlookup name
    rw [← h.after.store_eq] at hname
    rw [h.lookup_eq]
    exact hname.leads h.after.sound hopen.sound h.leads (.refl _) (h.knows name)
      fun _ => hopen.sound.knows_of_lookup?
  have hsame := fun budget => (evaluate_together covers_everyName budget body h.site_open hopen
    hagree fun _ h => h).sameResult
  -- With one budget the two evaluations go together, also in that it runs out.
  refine ⟨fun budget' => ?_, fun hran => ?_, fun budget' hlt hran => ?_⟩
  · intro second hran hran'
    have hlarger := evaluate_prolongs (Nat.le_max_left budget budget') body site.scope
      site.world.store
    have hlarger' := evaluate_prolongs (Nat.le_max_right budget budget') body site'.scope
      site'.world.store hran'
    rw [h.result_eq] at hran ⊢
    rw [← hlarger hran]
    simp only [second, ← hlarger']
    exact hsame _
  · rw [h.result_eq, (hsame budget).ranOut_iff] at hran
    refine ⟨budget, fun budget' hle => ?_⟩
    rwa [evaluate_prolongs hle body site'.scope site'.world.store hran]
  · have hle' : budget' ≤ budget := by omega
    rw [← evaluate_prolongs hle' body site'.scope site'.world.store hran] at hran
    rw [h.result_eq, (hsame budget).ranOut_iff]
    exact hran

/-! ### All parameters bound at once -/

/-- A scope within a captured one. -/
def World.within (world : World) (captured : ScopeId) (bindings : List (String × Value)) :
    Site where
  world := { world with store := (world.store.child captured bindings).2 }
  scope := (world.store.child captured bindings).1

section Within

variable {world : World} {captured : ScopeId} {bindings : List (String × Value)}

theorem World.Sound.leads_within (hs : world.Sound) :
    world.Leads (world.within captured bindings).world where
  size := by simp [within, Store.child]
  preserved id hid := by
    have hne := Nat.ne_of_lt (hs.bounded id hid)
    exact ⟨hid, by simp [within, Store.child, hne]⟩
  fresh id hid := .inl hid

theorem World.Sound.open_within (hs : world.Sound) (hcaptured : world.frozen captured)
    (hknows : ∀ name value, bindings.reverse.lookup name = some value → world.Knows value) :
    (world.within captured bindings).Open := by
  refine ⟨hs.alloc ?_ ?_ (fun _ hid => hid) fun _ hid => .inl hid, ?_, ?_⟩
  · rintro _ ⟨⟩
    exact hcaptured
  · intro name value hvalue
    rw [Scope.get?_ofList] at hvalue
    exact hknows name value hvalue
  · exact fun hfrozen => Nat.lt_irrefl _ (hs.bounded _ hfrozen)
  · simp [within, Store.child]

theorem World.Sound.lookup?_within (hs : world.Sound) (hcaptured : world.frozen captured)
    (hknows : ∀ name value, bindings.reverse.lookup name = some value → world.Knows value)
    (name : String) :
    (world.within captured bindings).lookup? name =
      (bindings.reverse.lookup name).or (world.store.lookup? captured name) := by
  let own := Scope.ofList bindings (some captured)
  have hget : (world.within captured bindings).world.store.get?
      (world.within captured bindings).scope = some own := by
    simp [within, Store.child, own]
  have houter : ∀ outer, own.outer = some outer → world.frozen outer := by
    rintro _ ⟨⟩
    exact hcaptured
  have hlater := hs.lookup?_later (hs.open_within hcaptured hknows).sound hs.leads_within hget
    houter name
  rw [Scope.get?_ofList] at hlater
  exact hlater

end Within

theorem EvaluatedAt.comesTo_within {least budget : Nat} {last : List Change} {body : Expr}
    {names : List String} {values : List Value} {outer : String → Option Value}
    {result : Except Fault Value × Store} {world : World} {site : Site} {captured : ScopeId}
    (h : EvaluatedAt last body (resolved names values outer) result world site budget)
    (hle : least ≤ budget) (hcaptured : world.frozen captured)
    (houter : ∀ name, world.store.lookup? captured name = outer name) :
    let inner := (Program.start.after last).child captured (names.zip values)
    (∀ name, inner.2.lookup? inner.1 name = resolved names values outer name) ∧
      ComesTo least result body inner.1 inner.2 := by
  have hs := h.after.sound
  have hknows : ∀ name value, (names.zip values).reverse.lookup name = some value →
      world.Knows value := by
    intro name value hvalue
    exact h.knows name value (by rw [resolved, hvalue, Option.some_or])
  have hlookup : ∀ name, (world.within captured (names.zip values)).lookup? name =
      resolved names values outer name := by
    intro name
    rw [hs.lookup?_within hcaptured hknows, houter, resolved]
  rw [← h.after.store_eq]
  refine ⟨hlookup, h.comesTo hle (hs.open_within hcaptured hknows) fun name => ?_⟩
  rw [hlookup, ← h.after.store_eq]
  cases hvalue : resolved names values outer name with
  | none => exact .unbound
  | some value =>
    have hknown := h.knows name value hvalue
    have hrelated := hs.related_refl everyName hknown
    exact .bound (hrelated.leads hs hs (.refl _) hs.leads_within hknown hknown)

/-! ### Literals -/

theorem CallsInTurn.isPrefix {least : Nat} {done last : List Change} {callee : Value}
    {values : List Value} {result : Except Fault Value × Store}
    (h : CallsInTurn least done callee values last result) : done <+: last := by
  induction h with
  | last ready | failed ready => exact ready.later
  | next ready _ _ _ ih => exact ready.later.trans ((List.prefix_append _ _).trans ih)

/-- What was made remains. -/
theorem Made.append {start : Store} {done : List Change} {value : Value}
    (h : Made start done value) (late : List Change) : Made start (done ++ late) value := by
  cases h with
  | unit => exact .unit
  | int n => exact .int n
  | bool b => exact .bool b
  | closure hdone =>
    subst hdone
    exact .closure (List.append_assoc _ _ _)

/-- The closure of a literal can be called with any arguments that there are, one right after the
other. -/
theorem exists_callsInTurn (least : Nat) {done : List Change} {param : String}
    {params : List String} {body : Expr} {captured : ScopeId} {values : List Value}
    (hdone : Program.Hosted done) (hlength : values.length = params.length + 1)
    (hclosure : Made Program.start done (.closure (some param)
      (params.foldr (fun name inner => .fn (some name) inner) body) captured))
    (hvalues : ∀ value ∈ values, Made Program.start done value) :
    ∃ last result, CallsInTurn least done (.closure (some param)
      (params.foldr (fun name inner => .fn (some name) inner) body) captured) values last
      result := by
  induction params generalizing done param captured values with
  | nil =>
    obtain ⟨argument, rfl⟩ := List.length_eq_one_iff.1 hlength
    have hargument := hvalues argument (List.mem_singleton_self _)
    exact ⟨done, _, .last ⟨hdone, List.prefix_refl _, hargument⟩ (Nat.le_refl _)⟩
  | cons second params ih =>
    obtain ⟨argument, values, rfl⟩ := List.exists_cons_of_length_eq_add_one hlength
    obtain ⟨next, values, rfl⟩ := List.exists_cons_of_length_eq_add_one (Nat.succ.inj hlength)
    obtain ⟨hargument, hvalues⟩ := List.forall_mem_cons.1 hvalues
    have hcall := hdone.call hclosure hargument (least + 1)
    obtain ⟨last, result, hrest⟩ := ih hcall (by simpa using hlength)
      (made_waiting least param second argument done) fun value hvalue =>
        (hvalues value hvalue).append _
    exact ⟨last, result, .next ⟨hdone, List.prefix_refl _, hargument⟩ (Nat.le_succ _) rfl hrest⟩

/-- Whenever a literal is evaluated, and whatever the host does before, between and after the calls,
calls of the closure come to one evaluation of the body. -/
theorem CallsInTurn.comesTo {least : Nat} {done last : List Change} {param : String}
    {params : List String} {body : Expr} {values : List Value} {scope : ScopeId}
    {result : Except Fault Value × Store} (hdone : Program.Hosted done)
    (hscope : Program.Active done scope) (hleast : 0 < least)
    (hlength : values.length = params.length + 1) :
    let store := Program.start.after done
    let copy := store.snapshot scope
    let rest := params.foldr (fun name inner => .fn (some name) inner) body
    CallsInTurn least (done ++ [.capture scope (some param) rest])
        (.closure (some param) rest copy.1) values last result →
      let inner := (Program.start.after last).child copy.1 ((param :: params).zip values)
      let lookup := resolved (param :: params) values (store.lookup? scope)
      (∀ name, inner.2.lookup? inner.1 name = lookup name) ∧
        ComesTo least result body inner.1 inner.2 ∧
        ∀ site : Site, site.Open →
          (∀ name, RelatedBinding everyName (Program.start.after last) site.world.store
            (lookup name) (site.lookup? name)) →
          ComesTo least result body site.scope site.world.store := by
  intro store copy rest h
  obtain ⟨world, hworld⟩ := hdone.exists_worldAfter
  have hopen := hworld.open_of_active hscope
  have fits : (Change.capture scope (some param) rest).Fits world := hopen.live
  let made := (Change.capture scope (some param) rest).step world
  have hmade : Program.WorldAfter (done ++ [.capture scope (some param) rest]) made :=
    hworld.after_runs (.cons fits (.nil _))
  have hcopy : copy.1 = world.store.scopes.size := by
    simp only [copy, store, ← hworld.store_eq]
    rfl
  have hfrozen : made.frozen copy.1 := .inr hcopy
  have hlookup : made.store.lookup? copy.1 = store.lookup? scope := by
    funext name
    rw [hcopy]
    simp only [store, ← hworld.store_eq]
    exact hopen.lookup?_capture (some param) rest name
  obtain ⟨later, site, budget, hle, hat⟩ := h.exists_evaluatedAt hmade hfrozen hlength hleast
  have hl := hmade.leads hat.after h.isPrefix
  have houter : ∀ name, later.store.lookup? copy.1 name = made.store.lookup? copy.1 name :=
    hmade.sound.lookup?_eq_of_frozen hl hfrozen
  rw [← hlookup]
  obtain ⟨hinner, hcomes⟩ := hat.comesTo_within hle (hl.preserved _ hfrozen).1 houter
  exact ⟨hinner, hcomes, fun site hopen hrelated => hat.comesTo hle hopen hrelated⟩

/-- Several parameters stand for a literal within a literal, and several arguments for a call after
a call. A literal and the literals within each other are read as the same tree, or with the same
fault, and so are calls with all arguments at once and one by one. At every moment of a host and
in every scope, the closure of a literal, called with one argument after the other, whatever happens
in between, gives what its body gives in a scope that resolves the parameters to the arguments, of
equal names the last one, and all other names as they were when the literal was evaluated. -/
theorem currying_agrees_with_binding :
    (∀ {names p q body ending} {s s' : TokenStream}, names ≠ [] → Parser.Header names p →
      Parser.Headers names q → s.Holds (p ++ body) ending → s'.Holds (q ++ body) ending →
      (∀ budget, Parser.SameReading (outcome (Parser.parse (budget + 2)) s)
        (outcome (Parser.parse (budget + 2 * names.length)) s')) ∧
      ∀ budget budget', ¬ RanOut (outcome (Parser.parse budget) s).1 →
        ¬ RanOut (outcome (Parser.parse budget') s').1 →
        Parser.SameReading (outcome (Parser.parse budget) s) (outcome (Parser.parse budget') s')) ∧
    (∀ {f e parts joined nested}, Parser.Derives .application f e → parts ≠ [] →
      (∀ part ∈ parts, ∃ e, Parser.Derives .expr part e) → Parser.AllAtOnce parts joined →
      Parser.OneByOne parts nested →
      ∃ callee trees, Parser.ReadAs f callee ∧ List.Forall₂ Parser.ReadAs parts trees ∧
        Parser.ReadAs (f ++ joined) (trees.foldl .apply callee) ∧
        Parser.ReadAs (f ++ nested) (trees.foldl .apply callee)) ∧
    ∀ {done scope names}, Program.Hosted done → Program.Active done scope → names ≠ [] →
      ∀ body budget,
      let store := Program.start.after done
      let literal := Parser.curried names body
      let made := done ++ changes (budget + 1) literal scope store
      let copy := store.snapshot scope
      ∃ closure, outcome (evaluate (budget + 1) literal scope) store = (.ok closure, copy.2) ∧
        (∀ least values, values.length = names.length →
          (∀ value ∈ values, Made Program.start made value) →
          ∃ last result, CallsInTurn least made closure values last result) ∧
        ∀ {least values last result}, 0 < least → values.length = names.length →
          CallsInTurn least made closure values last result →
          let inner := (Program.start.after last).child copy.1 (names.zip values)
          let lookup := resolved names values (store.lookup? scope)
          (∀ name, inner.2.lookup? inner.1 name = lookup name) ∧
            ComesTo least result body inner.1 inner.2 ∧
            ∀ site : Site, site.Open →
              (∀ name, RelatedBinding everyName (Program.start.after last) site.world.store
                (lookup name) (site.lookup? name)) →
              ComesTo least result body site.scope site.world.store := by
  refine ⟨?_, ?_, ?_⟩
  · intro names p q body ending s s' hne hp hq hs hs'
    refine ⟨fun budget => Parser.sameReading_literals hne hp hq hs hs' budget, ?_⟩
    intro budget budget' hran hran'
    exact Parser.sameReading_literals_of_budgets hne hp hq hs hs' hran hran'
  · intro f e parts joined nested hf hne hparts hjoined hnested
    exact Parser.readAs_calls hf hne hparts hjoined hnested
  · intro done scope names hdone hscope hne body budget store literal made copy
    obtain ⟨param, params, rfl⟩ := List.exists_cons_of_ne_nil hne
    refine ⟨.closure (some param) (params.foldr (fun name inner => .fn (some name) inner) body)
      copy.1, rfl, ?_, ?_⟩
    · intro least values hlength hvalues
      exact exists_callsInTurn least (hdone.evaluate hscope (budget + 1) literal) hlength
        (.closure rfl) hvalues
    · intro least values last result hleast hlength hcalls
      exact CallsInTurn.comesTo hdone hscope hleast hlength hcalls

/-- The parameter `x` comes twice, `k` is bound again between the calls, and the second argument is
the function itself. -/
theorem currying_agrees_with_binding_repeated :
    let joined := TokenStream.ofText "|x, y, x| => x + k"
    let nested := TokenStream.ofText "|x| => |y| => |x| => x + k"
    let f : Token := ⟨.ident, "f", 0⟩
    let one : Token := ⟨.int, "1", 0⟩
    let comma : Token := ⟨.comma, ",", 0⟩
    let left : Token := ⟨.lparen, "(", 0⟩
    let right : Token := ⟨.rparen, ")", 0⟩
    let body := Expr.binary .add (.ident "x") (.ident "k")
    let waiting := Expr.fn (some "y") (.fn (some "x") body)
    let function := Value.closure (some "x") waiting 1
    let last := [.bind 0 "k" (.int 1), .capture 0 (some "x") waiting,
      .enter 1 (some ("x", .int 5)), .capture 2 (some "y") (.fn (some "x") body),
      .bind 0 "k" (.int 100), .enter 3 (some ("y", function)), .capture 4 (some "x") body]
    let result := outcome (call 9 (.closure (some "x") body 5) (.int 7)) (Program.start.after last)
    let inner := (Program.start.after last).child 1
      [("x", .int 5), ("y", function), ("x", .int 7)]
    Parser.SameReading (outcome (Parser.parse 12) joined) (outcome (Parser.parse 16) nested) ∧
      (outcome (Parser.parse 12) joined).1 =
        .ok (.fn (some "x") (.fn (some "y") (.fn (some "x") body))) ∧
      (∃ e, Parser.ReadAs [f, left, one, comma, one, right] e ∧
        Parser.ReadAs [f, left, one, right, left, one, right] e) ∧
      result.1 = .ok (.int 8) ∧ ComesTo 9 result body inner.1 inner.2 := by
  intro joined nested f one comma left right body waiting function last result inner
  obtain ⟨hliterals, hcalls, hbinding⟩ := currying_agrees_with_binding
  refine ⟨?_, by decide +kernel, ?_, by decide +kernel, ?_⟩
  · let x : Token := ⟨.ident, "x", 0⟩
    let y : Token := ⟨.ident, "y", 0⟩
    let bar : Token := ⟨.vbar, "|", 0⟩
    let arrow : Token := ⟨.arrow, "=>", 0⟩
    let rest : List Token := [x, ⟨.plus, "+", 0⟩, ⟨.ident, "k", 0⟩, .eof 0]
    have hjoined : Parser.Header ["x", "y", "x"] [bar, x, comma, y, comma, x, bar, arrow] :=
      @Parser.Header.mk bar bar arrow [x, y, x] _ rfl (by decide) (.cons rfl (.cons rfl .single))
        rfl rfl
    have hone : ∀ name : Token, name.kind = .ident →
        Parser.Header [name.text] [bar, name, bar, arrow] := fun name hname =>
      @Parser.Header.mk bar bar arrow [name] _ rfl (by simpa using hname) .single rfl rfl
    have hnested : Parser.Headers ["x", "y", "x"]
        [bar, x, bar, arrow, bar, y, bar, arrow, bar, x, bar, arrow] :=
      .cons (hone x rfl) (.cons (hone y rfl) (.cons (hone x rfl) .nil))
    have hholds : joined.Holds ([bar, x, comma, y, comma, x, bar, arrow] ++ rest) none := by
      decide +kernel
    have hholds' : nested.Holds
        ([bar, x, bar, arrow, bar, y, bar, arrow, bar, x, bar, arrow] ++ rest) none := by
      decide +kernel
    exact (hliterals (by decide) hjoined hnested hholds hholds').1 10
  · have hone : ∃ e, Parser.Derives .expr [one] e :=
      ⟨_, .exprLogic (.operand (.operand (.operand (.operand (.plain (.callee (.int rfl)))))))⟩
    have hargument : ∀ part ∈ [[one], [one]], ∃ e, Parser.Derives .expr part e := by
      simpa using hone
    have hjoined : Parser.AllAtOnce [[one], [one]] [left, one, comma, one, right] :=
      .mk rfl (.cons rfl .single) rfl
    have hnested : Parser.OneByOne [[one], [one]] [left, one, right, left, one, right] :=
      .cons rfl rfl (.cons rfl rfl .nil)
    obtain ⟨callee, trees, -, -, h, h'⟩ := hcalls (.callee (@Parser.Derives.ident f rfl)) (by simp)
      hargument hjoined hnested
    exact ⟨_, h, h'⟩
  · have hlet : Program.Hosted (last.take 1) := by
      convert Program.Hosted.interpret .start .root ⟨99, 99⟩ "let k = 1" using 1
      decide +kernel
    have hliteral : Program.Hosted (last.take 2) := by
      convert hlet.evaluate .root 9 (.fn (some "x") waiting) using 1
      decide +kernel
    have hfunction : ∀ late, Made Program.start (last.take 2 ++ late) function := fun late =>
      @Made.closure _ _ (last.take 1) late 0 (some "x") waiting rfl
    have hfirst : Program.Hosted (last.take 4) := by
      convert hliteral.call (hfunction []) (.int 5) 9 using 1
      decide +kernel
    have hagain : Program.Hosted (last.take 5) := by
      convert hfirst.interpret .root ⟨99, 99⟩ "let k = 100" using 1
      decide +kernel
    have hsecond : Program.Hosted last := by
      have hclosure := @Made.closure Program.start (last.take 5) (last.take 3) _ 2 (some "y")
        (.fn (some "x") body) rfl
      convert hagain.call hclosure (hfunction ((last.take 5).drop 2)) 9 using 1
      decide +kernel
    have hturns : CallsInTurn 9 (last.take 2) function [.int 5, function, .int 7] last result := by
      refine .next ⟨hliteral, List.prefix_refl _, .int 5⟩ (Nat.le_refl 9) rfl ?_
      refine .next ⟨hagain, by decide +kernel, hfunction ((last.take 5).drop 2)⟩ (Nat.le_refl 9)
        rfl ?_
      exact .last ⟨hsecond, List.prefix_refl _, .int 7⟩ (Nat.le_refl 9)
    obtain ⟨closure, hclosure, -, hall⟩ := @hbinding _ _ ["x", "y", "x"] hlet .root (by decide)
      body 8
    obtain rfl : function = closure := Except.ok.inj (congrArg Prod.fst hclosure)
    exact (hall (by decide) rfl hturns).2.1

end LetLang
