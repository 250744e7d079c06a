import LetLang.Proofs.History.Closures
import LetLang.Proofs.History.Lettings
import LetLang.Proofs.Related
/-!
# Related evaluations

An expression is evaluated in two scopes, of two stores, that resolve the names it depends on to
related values. Step by step the two evaluations do the same: they bind the same names, give the
same fault or related values, and leave scopes that resolve those names, and the names that were
bound, to related values again.
-/
namespace LetLang

open Evaluating

/-- A scope of a world, as the place of an evaluation. -/
structure Site where
  world : World
  scope : ScopeId

namespace Site

def lookup? (site : Site) (name : String) : Option Value :=
  site.world.store.lookup? site.scope name

/-- The same scope in another world. -/
def moved (site : Site) (later : World) : Site :=
  { site with world := later }

/-- Evaluation may take place here: the scope is there, and no closure has captured it. -/
structure Open (site : Site) : Prop where
  sound : site.world.Sound
  live : ¬ site.world.frozen site.scope
  lt : site.scope < site.world.store.scopes.size

theorem Open.moved {site : Site} {later : World} (h : site.Open) (hs : later.Sound)
    (hl : site.world.Leads later) : (site.moved later).Open where
  sound := hs
  live := hl.live h.live h.lt
  lt := Nat.lt_of_lt_of_le h.lt hl.size

end Site

/-- The names that changes bind in a scope, in order. -/
def boundNames (scope : ScopeId) (changes : List Change) : List String :=
  (lettings scope changes).map (·.1)

@[simp] theorem boundNames_nil (scope : ScopeId) : boundNames scope [] = [] := rfl

@[simp] theorem boundNames_append (scope : ScopeId) (early late : List Change) :
    boundNames scope (early ++ late) = boundNames scope early ++ boundNames scope late := by
  simp [boundNames]

/-- Two sites resolve names to related values, or both to nothing. -/
def Agree (sees : Expr → String → Prop) (names : String → Prop) (site site' : Site) : Prop :=
  ∀ name, names name →
    RelatedBinding sees site.world.store site'.world.store (site.lookup? name) (site'.lookup? name)

/-- The world after a computation, and the changes that lead to it. -/
structure Ends {α : Type} (world : World) (x : Evaluating α) (made : List Change)
    (later : World) : Prop where
  runs : Runs world made later
  store : later.store = (outcome x world.store).2

/-- At the two sites, the two computations bind the same names, give the same fault or results
that are related as `R` says, and leave sites that agree on the names they agreed on, and on those
that were bound. -/
def Together {α β : Type} (sees : Expr → String → Prop) (names : String → Prop)
    (site site' : Site) (x : Evaluating α) (x' : Evaluating β) (made made' : List Change)
    (R : World → World → α → β → Prop) : Prop :=
  ∃ later later', Ends site.world x made later ∧ Ends site'.world x' made' later' ∧
    boundNames site.scope made = boundNames site'.scope made' ∧
    Agree sees (fun name => names name ∨ name ∈ boundNames site.scope made) (site.moved later)
      (site'.moved later') ∧
    SameResult (R later later') (outcome x site.world.store).1 (outcome x' site'.world.store).1

/-- Values that are related, and known in their worlds. -/
structure Paired (sees : Expr → String → Prop) (world world' : World) (value value' : Value) :
    Prop where
  related : Related sees world.store world'.store value value'
  left : world.Knows value
  right : world'.Knows value'

theorem Paired.leads {sees : Expr → String → Prop} {world world' later later' : World}
    {value value' : Value} (h : Paired sees world world' value value') (hs : world.Sound)
    (hs' : world'.Sound) (hl : world.Leads later) (hl' : world'.Leads later') :
    Paired sees later later' value value' where
  related := h.related.leads hs hs' hl hl' h.left h.right
  left := h.left.leads hl
  right := h.right.leads hl'

/-! ### Sequences -/

section Sequences

variable {α β γ δ : Type} {sees : Expr → String → Prop} {names : String → Prop}
  {site site' : Site} {made made' : List Change} {R : World → World → α → β → Prop}
  {R' : World → World → γ → δ → Prop}

theorem Agree.mono {names' : String → Prop} (h : Agree sees names site site')
    (hle : ∀ name, names' name → names name) : Agree sees names' site site' :=
  fun name hname => h name (hle name hname)

/-- Sites agree while their scopes stay as they are. -/
theorem Agree.leads {later later' : World} (h : Agree sees names site site')
    (hs : site.world.Sound) (hs' : site'.world.Sound) (hl : site.world.Leads later)
    (hl' : site'.world.Leads later')
    (hget : later.store.get? site.scope = site.world.store.get? site.scope)
    (hget' : later'.store.get? site'.scope = site'.world.store.get? site'.scope) :
    Agree sees names (site.moved later) (site'.moved later') :=
  fun name hname => (h name hname).lookup?_leads hs hs' hl hl' hget hget'

/-- Computations that change nothing. -/
theorem together_of_unchanged {x : Evaluating α} {x' : Evaluating β}
    (hagree : Agree sees names site site')
    (hstore : (outcome x site.world.store).2 = site.world.store)
    (hstore' : (outcome x' site'.world.store).2 = site'.world.store)
    (hresult : SameResult (R site.world site'.world) (outcome x site.world.store).1
      (outcome x' site'.world.store).1) :
    Together sees names site site' x x' [] [] R := by
  have hnames : Agree sees (fun name => names name ∨ name ∈ boundNames site.scope []) site site' :=
    hagree.mono (by simp)
  exact ⟨site.world, site'.world, ⟨.nil _, hstore.symm⟩, ⟨.nil _, hstore'.symm⟩, rfl, hnames,
    hresult⟩

theorem Together.bind {x : Evaluating α} {x' : Evaluating β} {f : α → Evaluating γ}
    {f' : β → Evaluating δ} {next : α → Store → List Change} {next' : β → Store → List Change}
    (hopen : site.Open) (hopen' : site'.Open)
    (hx : Together sees names site site' x x' made made' R)
    (hf : ∀ later later' a b names', (∀ name, names name → names' name) →
      (site.moved later).Open → (site'.moved later').Open →
      site.world.Leads later → site'.world.Leads later' →
      Agree sees names' (site.moved later) (site'.moved later') → R later later' a b →
      Together sees names' (site.moved later) (site'.moved later') (f a) (f' b)
        (next a later.store) (next' b later'.store) R') :
    Together sees names site site' (x >>= f) (x' >>= f')
      (made ++ followed x site.world.store next) (made' ++ followed x' site'.world.store next')
      R' := by
  obtain ⟨later, later', ⟨hruns, hstore⟩, ⟨hruns', hstore'⟩, hbound, hagree, hresult⟩ := hx
  obtain ⟨hs, hl⟩ := hruns.sound_leads hopen.sound
  obtain ⟨hs', hl'⟩ := hruns'.sound_leads hopen'.sound
  rcases hrun : outcome x site.world.store with ⟨result, store⟩
  rcases hrun' : outcome x' site'.world.store with ⟨result', store'⟩
  rw [hrun] at hstore hresult
  rw [hrun'] at hstore' hresult
  subst hstore hstore'
  cases hresult with
  | error fault =>
    refine ⟨later, later', ⟨?_, ?_⟩, ⟨?_, ?_⟩, ?_, ?_, ?_⟩
    · simpa [followed, hrun] using hruns
    · rw [outcome_bind_of_error hrun]
    · simpa [followed, hrun'] using hruns'
    · rw [outcome_bind_of_error hrun']
    · simpa [followed, hrun, hrun'] using hbound
    · simpa [followed, hrun] using hagree
    · rw [outcome_bind_of_error hrun, outcome_bind_of_error hrun']
      exact .error fault
  | @ok a b hab =>
    obtain ⟨last, last', hlast, hlast', hbound', hagree', hresult'⟩ :=
      hf later later' a b _ (fun _ => .inl) (hopen.moved hs hl) (hopen'.moved hs' hl') hl hl'
        hagree hab
    refine ⟨last, last', ⟨?_, ?_⟩, ⟨?_, ?_⟩, ?_, ?_, ?_⟩
    · simpa [followed, hrun] using hruns.append hlast.runs
    · rw [outcome_bind_of_ok hrun]
      exact hlast.store
    · simpa [followed, hrun'] using hruns'.append hlast'.runs
    · rw [outcome_bind_of_ok hrun']
      exact hlast'.store
    · simp only [followed, hrun, hrun', boundNames_append]
      rw [hbound]
      exact congrArg _ hbound'
    · apply hagree'.mono
      intro name hname
      simp only [followed, hrun, boundNames_append, List.mem_append] at hname
      exact or_assoc.2 hname
    · rw [outcome_bind_of_ok hrun, outcome_bind_of_ok hrun']
      exact hresult'

theorem Together.sameResult {x x' : Evaluating Value}
    (h : Together sees names site site' x x' made made' (Paired sees)) :
    SameResult (Related sees (outcome x site.world.store).2 (outcome x' site'.world.store).2)
      (outcome x site.world.store).1 (outcome x' site'.world.store).1 := by
  obtain ⟨later, later', ⟨_, hstore⟩, ⟨_, hstore'⟩, -, -, hresult⟩ := h
  rw [← hstore, ← hstore']
  exact hresult.imp fun _ _ hpair => hpair.related

/-- What is computed from results without a change. -/
theorem Together.lift {x : Evaluating α} {x' : Evaluating β} {g : α → Except Fault γ}
    {g' : β → Except Fault δ} (hopen : site.Open) (hopen' : site'.Open)
    (hx : Together sees names site site' x x' made made' R)
    (hg : ∀ later later' a b, site.world.Leads later → site'.world.Leads later' →
      R later later' a b → SameResult (R' later later') (g a) (g' b)) :
    Together sees names site site' (x >>= fun a => lift (g a)) (x' >>= fun b => lift (g' b))
      made made' R' := by
  obtain ⟨later, later', ⟨hruns, hstore⟩, ⟨hruns', hstore'⟩, hbound, hagree, hresult⟩ := hx
  have hsame : ∀ {ι κ : Type} (y : Evaluating ι) (h : ι → Except Fault κ) (store : Store),
      (outcome (y >>= fun a => Evaluating.lift (h a)) store).2 = (outcome y store).2 := by
    intro ι κ y h store
    rw [outcome_bind]
    rcases outcome y store with ⟨_ | a, _⟩ <;> rfl
  refine ⟨later, later', ⟨hruns, by rw [hsame, hstore]⟩, ⟨hruns', by rw [hsame, hstore']⟩, hbound,
    hagree, ?_⟩
  rw [outcome_bind, outcome_bind]
  rcases hrun : outcome x site.world.store with ⟨result, store⟩
  rcases hrun' : outcome x' site'.world.store with ⟨result', store'⟩
  rw [hrun, hrun'] at hresult
  cases hresult with
  | error fault => exact .error fault
  | ok hab =>
    exact hg later later' _ _ (hruns.sound_leads hopen.sound).2 (hruns'.sound_leads hopen'.sound).2
      hab

/-- A change on either side, before what comes after it. -/
theorem Together.cons {y : Evaluating γ} {y' : Evaluating δ} {f : γ → Evaluating α}
    {f' : δ → Evaluating β} {c : γ} {d : δ} {change change' : Change} {names' : String → Prop}
    (fits : change.Fits site.world) (fits' : change'.Fits site'.world)
    (hy : outcome y site.world.store = (.ok c, change.apply site.world.store))
    (hy' : outcome y' site'.world.store = (.ok d, change'.apply site'.world.store))
    (hbound : boundNames site.scope [change] = boundNames site'.scope [change'])
    (hnames : ∀ name, names name ∨ name ∈ boundNames site.scope [change] → names' name)
    (h : Together sees names' (site.moved (change.step site.world))
      (site'.moved (change'.step site'.world)) (f c) (f' d) made made' R) :
    Together sees names site site' (y >>= f) (y' >>= f') (change :: made) (change' :: made') R := by
  obtain ⟨later, later', ⟨hruns, hstore⟩, ⟨hruns', hstore'⟩, hbound', hagree, hresult⟩ := h
  have hsplit : boundNames site.scope (change :: made) =
      boundNames site.scope [change] ++ boundNames site.scope made :=
    boundNames_append site.scope [change] made
  have hsplit' : boundNames site'.scope (change' :: made') =
      boundNames site'.scope [change'] ++ boundNames site'.scope made' :=
    boundNames_append site'.scope [change'] made'
  refine ⟨later, later', ⟨.cons fits hruns, ?_⟩, ⟨.cons fits' hruns', ?_⟩, ?_, ?_, ?_⟩
  · rw [outcome_bind_of_ok hy]
    exact hstore
  · rw [outcome_bind_of_ok hy']
    exact hstore'
  · rw [hsplit, hsplit', hbound]
    exact congrArg _ hbound'
  · apply hagree.mono
    intro name hname
    rw [hsplit, List.mem_append] at hname
    exact (or_assoc.2 hname).imp_left (hnames name)
  · rw [outcome_bind_of_ok hy, outcome_bind_of_ok hy']
    exact hresult

end Sequences

/-! ### What scopes resolve after a change -/

namespace World

variable {world later : World}

/-- The own bindings of a scope come first, then whatever is resolved around it. -/
theorem Sound.lookup?_of_get? (hs : world.Sound) {id : ScopeId} {own : Scope}
    (hget : world.store.get? id = some own) (name : String) :
    world.store.lookup? id name =
      (own.get? name).or (own.outer.bind (world.store.lookup? · name)) := by
  rw [Store.lookup?_of_get? hget]
  cases houter : own.outer with
  | none => rfl
  | some outer => simp [(hs.outer id own outer hget houter).2]

/-- The same for a scope that a change has put in its place, within a frozen one. -/
theorem Sound.lookup?_later (hs : world.Sound) (hs' : later.Sound) (hl : world.Leads later)
    {id : ScopeId} {own : Scope} (hget : later.store.get? id = some own)
    (houter : ∀ outer, own.outer = some outer → world.frozen outer) (name : String) :
    later.store.lookup? id name =
      (own.get? name).or (own.outer.bind (world.store.lookup? · name)) := by
  rw [hs'.lookup?_of_get? hget]
  cases ho : own.outer with
  | none => rfl
  | some outer => simp [hs.lookup?_eq_of_frozen hl (houter outer ho)]

end World

section Changes

variable {sees : Expr → String → Prop} {names : String → Prop} {site site' : Site}

theorem Site.Open.exists_own (h : site.Open) :
    ∃ own, site.world.store.get? site.scope = some own ∧
      ∀ outer, own.outer = some outer → site.world.frozen outer := by
  obtain ⟨own, hget⟩ : ∃ own, site.world.store.get? site.scope = some own :=
    ⟨_, Array.getElem?_eq_getElem h.lt⟩
  exact ⟨own, hget, fun outer ho => (h.sound.outer _ own outer hget ho).1⟩

theorem Site.Open.lookup?_bind (h : site.Open) {name : String} {value : Value}
    (hvalue : site.world.Knows value) (key : String) :
    (site.moved ((Change.bind site.scope name value).step site.world)).lookup? key =
      if key = name then some value else site.lookup? key := by
  have fits : (Change.bind site.scope name value).Fits site.world := ⟨h.live, hvalue⟩
  obtain ⟨own, hget, houter⟩ := h.exists_own
  have hput : ((Change.bind site.scope name value).step site.world).store.get? site.scope =
      some (own.put name value) := by
    simp [Change.step, Change.apply, hget]
  have hlater := h.sound.lookup?_later (Change.step_sound h.sound fits)
    (Change.step_leads h.sound fits) hput houter key
  rw [Site.lookup?, Site.lookup?, h.sound.lookup?_of_get? hget]
  refine hlater.trans ?_
  have hsame : (own.put name value).outer = own.outer := rfl
  rw [hsame, Scope.get?_put]
  by_cases hkey : key = name
  · simp [hkey]
  · simp [hkey]

/-- Binding a name to related values makes the sites agree on it. -/
theorem Agree.bind (h : Agree sees names site site') (hopen : site.Open) (hopen' : site'.Open)
    (name : String) {value value' : Value}
    (hvalue : Paired sees site.world site'.world value value') :
    Agree sees (fun key => names key ∨ key = name)
      (site.moved ((Change.bind site.scope name value).step site.world))
      (site'.moved ((Change.bind site'.scope name value').step site'.world)) := by
  have fits : (Change.bind site.scope name value).Fits site.world := ⟨hopen.live, hvalue.left⟩
  have fits' : (Change.bind site'.scope name value').Fits site'.world :=
    ⟨hopen'.live, hvalue.right⟩
  have hl := Change.step_leads hopen.sound fits
  have hl' := Change.step_leads hopen'.sound fits'
  intro key hkey
  rw [hopen.lookup?_bind hvalue.left, hopen'.lookup?_bind hvalue.right]
  by_cases heq : key = name
  · rw [if_pos heq, if_pos heq]
    exact .bound (hvalue.leads hopen.sound hopen'.sound hl hl').related
  · rw [if_neg heq, if_neg heq]
    exact (h key (hkey.resolve_right heq)).leads_of_lookup? hopen.sound hopen'.sound hl hl'

/-- A `let` binds its name on either side, before what comes after it. -/
theorem together_bind {α β : Type} (hagree : Agree sees names site site') (hopen : site.Open)
    (hopen' : site'.Open) (name : String) {value value' : Value}
    (hvalue : Paired sees site.world site'.world value value') {f : Unit → Evaluating α}
    {f' : Unit → Evaluating β} {made made' : List Change} {R : World → World → α → β → Prop}
    (hf : let inner := site.moved ((Change.bind site.scope name value).step site.world)
      let inner' := site'.moved ((Change.bind site'.scope name value').step site'.world)
      inner.Open → inner'.Open → Agree sees (fun key => names key ∨ key = name) inner inner' →
      Paired sees inner.world inner'.world value value' →
      Together sees (fun key => names key ∨ key = name) inner inner' (f ()) (f' ()) made made' R) :
    Together sees names site site' (modify (·.bind site.scope name value) >>= f)
      (modify (·.bind site'.scope name value') >>= f') (.bind site.scope name value :: made)
      (.bind site'.scope name value' :: made') R := by
  have fits : (Change.bind site.scope name value).Fits site.world := ⟨hopen.live, hvalue.left⟩
  have fits' : (Change.bind site'.scope name value').Fits site'.world :=
    ⟨hopen'.live, hvalue.right⟩
  have hbound : boundNames site.scope [.bind site.scope name value] = [name] := by
    simp [boundNames, lettings]
  have hbound' : boundNames site'.scope [.bind site'.scope name value'] = [name] := by
    simp [boundNames, lettings]
  apply Together.cons fits fits' rfl rfl (hbound.trans hbound'.symm)
  · intro key hkey
    rw [hbound, List.mem_singleton] at hkey
    exact hkey
  · have hl := Change.step_leads hopen.sound fits
    have hl' := Change.step_leads hopen'.sound fits'
    exact hf (hopen.moved (Change.step_sound hopen.sound fits) hl)
      (hopen'.moved (Change.step_sound hopen'.sound fits') hl')
      (hagree.bind hopen hopen' name hvalue) (hvalue.leads hopen.sound hopen'.sound hl hl')

theorem Site.Open.lookup?_capture (h : site.Open) (param : Option String) (body : Expr)
    (name : String) :
    ((Change.capture site.scope param body).step site.world).store.lookup?
      site.world.store.scopes.size name = site.lookup? name := by
  have fits : (Change.capture site.scope param body).Fits site.world := h.live
  obtain ⟨own, hget, houter⟩ := h.exists_own
  have hcopy : ((Change.capture site.scope param body).step site.world).store.get?
      site.world.store.scopes.size = some own := by
    simp [Change.step, Change.apply, Store.snapshot, hget]
  rw [Site.lookup?, h.sound.lookup?_of_get? hget]
  exact h.sound.lookup?_later (Change.step_sound h.sound fits) (Change.step_leads h.sound fits)
    hcopy houter name

/-- Closures that capture sites are related if the sites agree on what the body depends on. -/
theorem Agree.capture (h : Agree sees names site site') (hopen : site.Open) (hopen' : site'.Open)
    (param : Option String) (body : Expr) (hbody : ∀ name, sees body name → names name) :
    Paired sees ((Change.capture site.scope param body).step site.world)
      ((Change.capture site'.scope param body).step site'.world)
      (.closure param body site.world.store.scopes.size)
      (.closure param body site'.world.store.scopes.size) := by
  have fits : (Change.capture site.scope param body).Fits site.world := hopen.live
  have fits' : (Change.capture site'.scope param body).Fits site'.world := hopen'.live
  refine ⟨.closure param body fun name hname => ?_, .inr rfl, .inr rfl⟩
  rw [hopen.lookup?_capture, hopen'.lookup?_capture]
  exact (h name (hbody name hname)).leads_of_lookup? hopen.sound hopen'.sound
    (Change.step_leads hopen.sound fits) (Change.step_leads hopen'.sound fits')

/-- The scope that a call opens. -/
def World.opened (world : World) (captured : ScopeId) (binding : Option (String × Value)) :
    Site where
  world := (Change.enter captured binding).step world
  scope := world.store.scopes.size

theorem World.Sound.open_opened {world : World} {captured : ScopeId}
    {binding : Option (String × Value)} (hs : world.Sound)
    (fits : (Change.enter captured binding).Fits world) : (world.opened captured binding).Open where
  sound := Change.step_sound hs fits
  live h := Nat.lt_irrefl _ (hs.bounded _ h)
  lt := by simp [opened, Change.step, Change.apply, Store.child]

/-- In the scope that a call opens, the parameter is bound and all else is resolved as captured. -/
theorem World.Sound.lookup?_opened {world : World} {captured : ScopeId}
    {binding : Option (String × Value)} (hs : world.Sound)
    (fits : (Change.enter captured binding).Fits world) (name : String) :
    (world.opened captured binding).lookup? name =
      (binding.toList.lookup name).or (world.store.lookup? captured name) := by
  have hget : ((Change.enter captured binding).step world).store.get? world.store.scopes.size =
      some (.ofList binding.toList (some captured)) := by
    simp [Change.step, Change.apply, Store.child]
  have houter : ∀ outer, (Scope.ofList binding.toList (some captured)).outer = some outer →
      world.frozen outer := by
    intro outer ho
    cases ho
    exact fits.1
  have hlater := hs.lookup?_later (Change.step_sound hs fits) (Change.step_leads hs fits) hget
    houter name
  rw [Scope.get?_ofList_toList] at hlater
  exact hlater

theorem fits_enter {world : World} {param : Option String} {body : Expr} {captured : ScopeId}
    {argument : Value} (hclosure : world.Knows (.closure param body captured))
    (hargument : world.Knows argument) :
    (Change.enter captured (param.map (·, argument))).Fits world := by
  refine ⟨hclosure, ?_⟩
  intro pair hpair
  obtain ⟨_, _, rfl⟩ := Option.map_eq_some_iff.1 hpair
  exact hargument

/-- The scopes that calls of related closures open agree on what the body depends on. -/
theorem Paired.agree_opened {world world' : World} {param : Option String} {body : Expr}
    {captured captured' : ScopeId} {argument argument' : Value}
    (hclosure : Paired sees world world' (.closure param body captured)
      (.closure param body captured'))
    (hargument : Paired sees world world' argument argument') (hs : world.Sound)
    (hs' : world'.Sound) :
    Agree sees (sees body) (world.opened captured (param.map (·, argument)))
      (world'.opened captured' (param.map (·, argument'))) := by
  have fits := fits_enter hclosure.left hargument.left
  have fits' := fits_enter hclosure.right hargument.right
  have hl := Change.step_leads hs fits
  have hl' := Change.step_leads hs' fits'
  intro name hname
  rw [hs.lookup?_opened fits, hs'.lookup?_opened fits']
  have hcaptured : RelatedBinding sees world.store world'.store
      (world.store.lookup? captured name) (world'.store.lookup? captured' name) := by
    cases hclosure.related with
    | closure _ _ resolved => exact resolved name hname
  have hlater := hcaptured.leads_of_lookup? hs hs' hl hl'
  cases param with
  | none => exact hlater
  | some param =>
    simp only [Option.map_some, Option.toList_some, lookup_cons_eq_ite]
    by_cases heq : name = param
    · rw [if_pos heq, if_pos heq]
      exact .bound (hargument.leads hs hs' hl hl').related
    · rw [if_neg heq, if_neg heq]
      exact hlater

/-- A call binds nothing in the scope of its caller. -/
theorem boundNames_enter {store : Store} {scope : ScopeId} (hlt : scope < store.scopes.size)
    (budget : Nat) (body : Expr) (captured : ScopeId) (binding : Option (String × Value)) :
    boundNames scope (.enter captured binding ::
      changes budget body (store.child captured binding.toList).1
        (store.child captured binding.toList).2) = [] := by
  have hconfined := changes_confined budget body (store.child captured binding.toList).1
    (store.child captured binding.toList).2
  have hlt' : scope < (store.child captured binding.toList).2.scopes.size := by
    simpa [Store.child] using Nat.lt_succ_of_lt hlt
  apply List.map_eq_nil_iff.2
  apply List.eq_nil_iff_forall_not_mem.2
  intro bound hmem
  have hscope := (hconfined.of_mem_lettings hlt' hmem).1
  exact Nat.ne_of_lt hlt hscope

/-- What changes bind nothing in stays as it is. -/
theorem Runs.get?_eq {world later : World} {made : List Change} {scope : ScopeId}
    (h : Runs world made later) (hlt : scope < world.store.scopes.size)
    (hbound : boundNames scope made = []) :
    later.store.get? scope = world.store.get? scope := by
  rw [h.store_eq, Store.get?_after hlt, List.map_eq_nil_iff.1 hbound]
  simp

/-- Calls of related closures with related arguments go together if their bodies do. -/
theorem together_enter (hagree : Agree sees names site site') (hopen : site.Open)
    (hopen' : site'.Open) {budget : Nat} {param : Option String} {body : Expr}
    {captured captured' : ScopeId} {argument argument' : Value}
    (hclosure : Paired sees site.world site'.world (.closure param body captured)
      (.closure param body captured'))
    (hargument : Paired sees site.world site'.world argument argument')
    (hbody : ∀ inner inner' : Site, inner.Open → inner'.Open → Agree sees (sees body) inner inner' →
      Together sees (sees body) inner inner' (evaluate budget body inner.scope)
        (evaluate budget body inner'.scope) (changes budget body inner.scope inner.world.store)
        (changes budget body inner'.scope inner'.world.store) (Paired sees)) :
    let opened := site.world.store.child captured (param.map (·, argument)).toList
    let opened' := site'.world.store.child captured' (param.map (·, argument')).toList
    Together sees names site site' (enter (evaluate budget) param body captured argument)
      (enter (evaluate budget) param body captured' argument')
      (.enter captured (param.map (·, argument)) :: changes budget body opened.1 opened.2)
      (.enter captured' (param.map (·, argument')) :: changes budget body opened'.1 opened'.2)
      (Paired sees) := by
  intro opened opened'
  have fits := fits_enter hclosure.left hargument.left
  have fits' := fits_enter hclosure.right hargument.right
  obtain ⟨later, later', ⟨hruns, hstore⟩, ⟨hruns', hstore'⟩, -, -, hresult⟩ :=
    hbody _ _ (hopen.sound.open_opened fits) (hopen'.sound.open_opened fits')
      (hclosure.agree_opened hargument hopen.sound hopen'.sound)
  have hall := Runs.cons fits hruns
  have hall' := Runs.cons fits' hruns'
  have hnone := boundNames_enter hopen.lt budget body captured (param.map (·, argument))
  have hnone' := boundNames_enter hopen'.lt budget body captured' (param.map (·, argument'))
  refine ⟨later, later', ⟨hall, hstore⟩, ⟨hall', hstore'⟩, hnone.trans hnone'.symm, ?_, hresult⟩
  apply Agree.leads _ hopen.sound hopen'.sound (hall.sound_leads hopen.sound).2
    (hall'.sound_leads hopen'.sound).2 (hall.get?_eq hopen.lt hnone)
    (hall'.get?_eq hopen'.lt hnone')
  apply hagree.mono
  intro name hname
  rw [hnone] at hname
  simpa using hname

end Changes

/-! ### Evaluation -/

section Evaluation

variable {sees : Expr → String → Prop} {names : String → Prop} {site site' : Site}

theorem outcome_ident (budget : Nat) (name : String) (scope : ScopeId) (store : Store) :
    outcome (evaluate (budget + 1) (.ident name) scope) store =
      (match store.lookup? scope name with
      | some value => .ok value
      | none => .error (.language (.undefinedIdentifier name)), store) := by
  rw [evaluate, outcome_bind, outcome_get]
  dsimp only
  cases store.lookup? scope name <;> rfl

theorem paired_of_face {world world' : World} {result result' : Except Fault Value}
    (h : SameResult (Related sees world.store world'.store) result result')
    (hclosure : ∀ value, result = .ok value → ∀ param body captured,
      value ≠ .closure param body captured)
    (hclosure' : ∀ value, result' = .ok value → ∀ param body captured,
      value ≠ .closure param body captured) :
    SameResult (Paired sees world world') result result' := by
  cases h with
  | error fault => exact .error fault
  | ok related =>
    exact .ok ⟨related, Value.within_of_ne_closure (hclosure _ rfl),
      Value.within_of_ne_closure (hclosure' _ rfl)⟩

theorem together_ident (hagree : Agree sees names site site') {name : String} (hname : names name)
    (hopen : site.Open) (hopen' : site'.Open) (budget : Nat) :
    Together sees names site site' (evaluate (budget + 1) (.ident name) site.scope)
      (evaluate (budget + 1) (.ident name) site'.scope) [] [] (Paired sees) := by
  have hfound := hagree name hname
  apply together_of_unchanged hagree <;> rw [outcome_ident]
  rw [outcome_ident]
  cases hv : site.world.store.lookup? site.scope name <;>
    cases hv' : site'.world.store.lookup? site'.scope name <;>
    rw [Site.lookup?, Site.lookup?, hv, hv'] at hfound <;> cases hfound
  · exact .error _
  · next related =>
    exact .ok ⟨related, hopen.sound.knows_of_lookup? hv, hopen'.sound.knows_of_lookup? hv'⟩

/-- A function literal captures its scope on either side. -/
theorem together_fn (hagree : Agree sees names site site') (hopen : site.Open)
    (hopen' : site'.Open) (budget : Nat) (param : Option String) (body : Expr)
    (hbody : ∀ name, sees body name → names name) :
    Together sees names site site' (evaluate (budget + 1) (.fn param body) site.scope)
      (evaluate (budget + 1) (.fn param body) site'.scope) [.capture site.scope param body]
      [.capture site'.scope param body] (Paired sees) := by
  have fits : (Change.capture site.scope param body).Fits site.world := hopen.live
  have fits' : (Change.capture site'.scope param body).Fits site'.world := hopen'.live
  have hpair := hagree.capture hopen hopen' param body hbody
  have hruns := Runs.cons fits (.nil _)
  have hruns' := Runs.cons fits' (.nil _)
  have hkept := hagree.leads hopen.sound hopen'.sound (Change.step_leads hopen.sound fits)
    (Change.step_leads hopen'.sound fits') (hruns.get?_eq hopen.lt rfl)
    (hruns'.get?_eq hopen'.lt rfl)
  apply Together.cons fits fits' rfl rfl rfl _ (together_of_unchanged hkept rfl rfl (.ok hpair))
  intro name hname
  simpa [boundNames, lettings] using hname

theorem together_complain (hagree : Agree sees names site site') (error : Option LanguageError)
    {R : World → World → Value → Value → Prop} :
    Together sees names site site' (lift (Value.complain error)) (lift (Value.complain error))
      [] [] R :=
  together_of_unchanged hagree rfl rfl (sameResult_complain _ _)

end Evaluation

/-- Evaluations of one expression go together, at sites that agree on the names that it depends
on. -/
theorem evaluate_together {sees : Expr → String → Prop} (hsees : Covers sees) (budget : Nat)
    (expr : Expr) {names : String → Prop} {site site' : Site} (hopen : site.Open)
    (hopen' : site'.Open) (hagree : Agree sees names site site')
    (hnames : ∀ name, sees expr name → names name) :
    Together sees names site site' (evaluate budget expr site.scope)
      (evaluate budget expr site'.scope) (changes budget expr site.scope site.world.store)
      (changes budget expr site'.scope site'.world.store) (Paired sees) := by
  induction budget generalizing expr names site site' with
  | zero => exact together_of_unchanged hagree rfl rfl (.error _)
  | succ budget ih =>
    have hpart : ∀ part ∈ expr.parts, ∀ name, sees part name → names name :=
      fun part hmem name h => hnames name (hsees.part hmem h)
    cases expr with
    | unit => exact together_of_unchanged hagree rfl rfl (.ok ⟨.unit, trivial, trivial⟩)
    | int n => exact together_of_unchanged hagree rfl rfl (.ok ⟨.int n, trivial, trivial⟩)
    | bool b => exact together_of_unchanged hagree rfl rfl (.ok ⟨.bool b, trivial, trivial⟩)
    | datum value => exact together_complain hagree _
    | ident name => exact together_ident hagree (hnames name (hsees.ident name)) hopen hopen' budget
    | binary op left right =>
      apply (ih left hopen hopen' hagree (hpart left (by simp [Expr.parts]))).bind hopen hopen'
      intro later later' a a' names' hle hopen hopen' _ _ hagree ha
      have hright := ih right hopen hopen' hagree fun name h =>
        hle name (hpart right (by simp [Expr.parts]) name h)
      apply hright.lift hopen hopen'
      intro last last' b b' hl hl' hb
      have ha := ha.leads hopen.sound hopen'.sound hl hl'
      exact paired_of_face (ha.related.binary op hb.related) (fun _ h => binary_ne_closure h)
        fun _ h => binary_ne_closure h
    | unary op operand =>
      have hoperand := ih operand hopen hopen' hagree (hpart operand (by simp [Expr.parts]))
      apply hoperand.lift hopen hopen'
      intro later later' a a' _ _ ha
      exact paired_of_face (ha.related.unary op) (fun _ h => unary_ne_closure h)
        fun _ h => unary_ne_closure h
    | define name bound =>
      apply (ih bound hopen hopen' hagree (hpart bound (by simp [Expr.parts]))).bind hopen hopen'
      intro later later' a a' names' hle hopen hopen' _ _ hagree ha
      apply together_bind hagree hopen hopen' name ha
      intro inner inner' _ _ hagree ha
      exact together_of_unchanged hagree rfl rfl (.ok ha)
    | letIn name bound body =>
      apply (ih bound hopen hopen' hagree (hpart bound (by simp [Expr.parts]))).bind hopen hopen'
      intro later later' a a' names' hle hopen hopen' _ _ hagree ha
      apply together_bind hagree hopen hopen' name ha
      intro inner inner' hopen hopen' hagree _
      exact ih body hopen hopen' hagree fun key h =>
        .inl (hle key (hpart body (by simp [Expr.parts]) key h))
    | ifThen cond yes =>
      apply (ih cond hopen hopen' hagree (hpart cond (by simp [Expr.parts]))).bind hopen hopen'
      intro later later' a a' names' hle hopen hopen' _ _ hagree ha
      have hyes := ih yes hopen hopen' hagree fun key h =>
        hle key (hpart yes (by simp [Expr.parts]) key h)
      cases ha.related with
      | bool b =>
        cases b with
        | true => exact hyes
        | false => exact together_of_unchanged hagree rfl rfl (.ok ⟨.unit, trivial, trivial⟩)
      | unit => exact together_complain hagree _
      | int n => exact together_complain hagree _
      | closure param body _ => exact together_complain hagree _
    | ifThenElse cond yes no =>
      apply (ih cond hopen hopen' hagree (hpart cond (by simp [Expr.parts]))).bind hopen hopen'
      intro later later' a a' names' hle hopen hopen' _ _ hagree ha
      have hyes := ih yes hopen hopen' hagree fun key h =>
        hle key (hpart yes (by simp [Expr.parts]) key h)
      have hno := ih no hopen hopen' hagree fun key h =>
        hle key (hpart no (by simp [Expr.parts]) key h)
      cases ha.related with
      | bool b =>
        cases b with
        | true => exact hyes
        | false => exact hno
      | unit => exact together_complain hagree _
      | int n => exact together_complain hagree _
      | closure param body _ => exact together_complain hagree _
    | fn param body =>
      exact together_fn hagree hopen hopen' budget param body (hpart body (by simp [Expr.parts]))
    | apply callee argument =>
      apply (ih callee hopen hopen' hagree (hpart callee (by simp [Expr.parts]))).bind hopen hopen'
      intro later later' f f' names' hle hopen hopen' _ _ hagree hf
      have hargument := ih argument hopen hopen' hagree fun key h =>
        hle key (hpart argument (by simp [Expr.parts]) key h)
      cases hf.related with
      | closure param body _ =>
        apply hargument.bind hopen hopen'
        intro last last' a a' _ _ hlast hlast' hl hl' hagree ha
        have hf := hf.leads hopen.sound hopen'.sound hl hl'
        exact together_enter hagree hlast hlast' hf ha fun _ _ hopen hopen' hagree =>
          ih body hopen hopen' hagree fun _ h => h
      | unit => exact together_complain hagree _
      | int n => exact together_complain hagree _
      | bool b => exact together_complain hagree _

/-! ### Sessions -/

/-- The store at a moment of a session. -/
def Program.Reached (store : Store) : Prop :=
  ∃ limits texts moment, moment <+: Program.history limits Program.root texts Program.start ∧
    store = Program.start.after moment

/-- The root scope of a session is never captured. -/
theorem Program.Reached.exists_world {store : Store} (h : Program.Reached store) :
    ∃ world : World, world.store = store ∧ Site.Open ⟨world, Program.root⟩ := by
  obtain ⟨limits, texts, moment, hmoment, rfl⟩ := h
  obtain ⟨world, hruns⟩ := LetLang.exists_world hmoment
  obtain ⟨hs, hl⟩ := hruns.sound_leads World.sound_start
  have hlt : Program.root < World.start.store.scopes.size := by decide
  refine ⟨world, hruns.store_eq, hs, ?_, Nat.lt_of_lt_of_le hlt hl.size⟩
  exact hl.live (fun h : World.start.frozen Program.root => h) hlt

end LetLang
