import LetLang.Proofs.Related.Evaluation
/-!
# `let` and application

To bind a name for an expression is to apply the function of that name. The function body is
evaluated in a scope of its own, within a copy of the current one, and the body of the `let` in the
current scope itself, but both resolve every name alike. The two differ in what is left: the
application leaves the current scope as it was, if its argument binds nothing there.
-/
namespace LetLang

open Evaluating

/-- Looks at every name, whatever the expression. -/
def everyName : Expr → String → Prop :=
  fun _ _ => True

theorem covers_everyName : Covers everyName where
  ident _ := trivial
  part _ _ := trivial

/-! ### Copies of a scope -/

theorem Site.Open.agree_self {site : Site} (h : site.Open) (sees : Expr → String → Prop)
    (names : String → Prop) : Agree sees names site site := by
  intro name _
  cases hvalue : site.lookup? name with
  | none => exact .unbound
  | some value => exact .bound (h.sound.related_refl sees (h.sound.knows_of_lookup? hvalue))

/-- A copy of a scope that is not captured, so that evaluation may take place in it. -/
def Site.copied (site : Site) : Site where
  world := { site.world with store := (site.world.store.snapshot site.scope).2 }
  scope := (site.world.store.snapshot site.scope).1

theorem Site.Open.leads_copied {site : Site} (h : site.Open) :
    site.world.Leads site.copied.world where
  size := by simp [Site.copied, Store.snapshot]
  preserved id hid := by
    have hne := Nat.ne_of_lt (h.sound.bounded id hid)
    exact ⟨hid, by simp [Site.copied, Store.snapshot, hne]⟩
  fresh id hid := .inl hid

theorem Site.Open.copied {site : Site} (h : site.Open) : site.copied.Open := by
  obtain ⟨own, hget, houter⟩ := h.exists_own
  have hsound : site.copied.world.Sound := by
    simp only [Site.copied, Store.snapshot, hget, Option.getD_some]
    exact h.sound.alloc houter (fun name value hv => h.sound.values _ own name value hget hv)
      (fun _ hid => hid) fun _ hid => .inl hid
  refine ⟨hsound, ?_, by simp [Site.copied, Store.snapshot]⟩
  exact fun hfrozen => Nat.lt_irrefl _ (h.sound.bounded _ hfrozen)

/-- A copy resolves every name as the scope does. -/
theorem Site.Open.agree_copied {site : Site} (h : site.Open) (sees : Expr → String → Prop)
    (names : String → Prop) : Agree sees names site site.copied := by
  obtain ⟨own, hget, houter⟩ := h.exists_own
  have hcopy : site.copied.world.store.get? site.copied.scope = some own := by
    simp [Site.copied, Store.snapshot, hget]
  intro name hname
  have hlookup : site.copied.lookup? name = site.lookup? name := by
    rw [Site.lookup?, Site.lookup?, h.sound.lookup?_of_get? hget]
    exact h.sound.lookup?_later h.copied.sound h.leads_copied hcopy houter name
  rw [hlookup]
  exact (h.agree_self sees names name hname).leads_of_lookup? h.sound h.sound (.refl _)
    h.leads_copied

/-! ### The two evaluations -/

section Application

variable {site site' : Site} {e₁ : Expr}

/-- What an expression leaves of its scope, if it binds nothing there. -/
theorem get?_evaluate_of_lets_eq_nil (hlets : e₁.lets = []) {scope : ScopeId} {store : Store}
    (hlt : scope < store.scopes.size) (budget : Nat) :
    (outcome (evaluate budget e₁ scope) store).2.get? scope = store.get? scope := by
  rw [evaluate_store_eq_after, Store.get?_after hlt, lettings_eq_nil hlets hlt]
  simp

/-- The world in which a function literal has captured the current scope. -/
def Site.capturing (site : Site) (param : Option String) (body : Expr) : Site :=
  site.moved ((Change.capture site.scope param body).step site.world)

/-- The captured copy and the current scope resolve names alike, for as long as nothing is bound
in the latter. -/
theorem Site.Open.lookup?_captured (h : site.Open) {param : Option String} {body : Expr}
    {later : World} (hl : (site.capturing param body).world.Leads later)
    (hget : later.store.get? site.scope = (site.capturing param body).world.store.get? site.scope)
    (name : String) :
    later.store.lookup? site.world.store.scopes.size name =
      later.store.lookup? site.scope name := by
  have fits : (Change.capture site.scope param body).Fits site.world := h.live
  have hs := Change.step_sound h.sound fits
  have hruns := Runs.cons fits (.nil _)
  rw [hs.lookup?_eq_of_frozen hl (.inr rfl), h.lookup?_capture, hs.lookup?_eq hl hget,
    h.sound.lookup?_eq (Change.step_leads h.sound fits) (hruns.get?_eq h.lt rfl)]
  rfl

/-- With the argument and the bound expression evaluated, the scope of the call and the scope of
the `let` resolve every name alike. -/
theorem agree_opened_bound {captured : ScopeId} {x : String} {value value' : Value}
    (hopen : site.Open) (hopen' : site'.Open) (hagree : Agree everyName (fun _ => True) site site')
    (fits : (Change.enter captured (some (x, value))).Fits site.world)
    (hlookup : ∀ name, site.world.store.lookup? captured name = site.lookup? name)
    (hvalue : Paired everyName site.world site'.world value value') :
    Agree everyName (fun _ => True) (site.world.opened captured (some (x, value)))
      (site'.moved ((Change.bind site'.scope x value').step site'.world)) := by
  have fits' : (Change.bind site'.scope x value').Fits site'.world := ⟨hopen'.live, hvalue.right⟩
  have hl := Change.step_leads hopen.sound fits
  have hl' := Change.step_leads hopen'.sound fits'
  intro name _
  rw [hopen.sound.lookup?_opened fits, hopen'.lookup?_bind hvalue.right, hlookup]
  simp only [Option.toList_some, lookup_cons_eq_ite]
  by_cases heq : name = x
  · rw [if_pos heq, if_pos heq]
    exact .bound (hvalue.leads hopen.sound hopen'.sound hl hl').related
  · rw [if_neg heq, if_neg heq]
    exact (hagree name trivial).leads_of_lookup? hopen.sound hopen'.sound hl hl'

/-- What comes after computations that go together may take place elsewhere. -/
theorem Together.sameResult_bind {α β γ δ : Type} {sees : Expr → String → Prop}
    {names : String → Prop} {made made' : List Change} {R : World → World → α → β → Prop}
    {Q : Store → Store → γ → δ → Prop} {x : Evaluating α} {x' : Evaluating β}
    {f : α → Evaluating γ} {f' : β → Evaluating δ} (hopen : site.Open) (hopen' : site'.Open)
    (hx : Together sees names site site' x x' made made' R)
    (hf : ∀ later later' a b, Runs site.world made later → (site.moved later).Open →
      (site'.moved later').Open → Agree sees names (site.moved later) (site'.moved later') →
      R later later' a b →
      SameResult (Q (outcome (f a) later.store).2 (outcome (f' b) later'.store).2)
        (outcome (f a) later.store).1 (outcome (f' b) later'.store).1) :
    SameResult (Q (outcome (x >>= f) site.world.store).2 (outcome (x' >>= f') site'.world.store).2)
      (outcome (x >>= f) site.world.store).1 (outcome (x' >>= f') site'.world.store).1 := by
  obtain ⟨later, later', ⟨hruns, hstore⟩, ⟨hruns', hstore'⟩, -, hagree, hresult⟩ := hx
  obtain ⟨hs, hl⟩ := hruns.sound_leads hopen.sound
  obtain ⟨hs', hl'⟩ := hruns'.sound_leads hopen'.sound
  rw [outcome_bind, outcome_bind]
  rcases hrun : outcome x site.world.store with ⟨result, store⟩
  rcases hrun' : outcome x' site'.world.store with ⟨result', store'⟩
  rw [hrun] at hstore hresult
  rw [hrun'] at hstore' hresult
  subst hstore hstore'
  cases hresult with
  | error fault => exact .error fault
  | ok hab =>
    exact hf later later' _ _ hruns (hopen.moved hs hl) (hopen'.moved hs' hl')
      (hagree.mono fun _ => .inl) hab

/-- The same budget serves both evaluations: the function and its argument stand where the bound
expression does. -/
theorem application_same (hopen : site.Open) (hopen' : site'.Open)
    (hagree : Agree everyName (fun _ => True) site site') (hlets : e₁.lets = []) (x : String)
    (e₂ : Expr) (budget : Nat) :
    let first := outcome (evaluate budget (.apply (.fn (some x) e₂) e₁) site.scope) site.world.store
    let second := outcome (evaluate budget (.letIn x e₁ e₂) site'.scope) site'.world.store
    SameResult (Related everyName first.2 second.2) first.1 second.1 := by
  rcases budget with _ | _ | budget
  · exact .error _
  · exact .error _
  -- The function has captured the scope before its argument is evaluated.
  have fits : (Change.capture site.scope (some x) e₂).Fits site.world := hopen.live
  have hl := Change.step_leads hopen.sound fits
  have hcapture := Runs.cons fits (.nil _)
  let inner := site.capturing (some x) e₂
  have hinner : inner.Open := hopen.moved (Change.step_sound hopen.sound fits) hl
  have hagree : Agree everyName (fun _ => True) inner site' :=
    hagree.leads hopen.sound hopen'.sound hl (.refl _) (hcapture.get?_eq hopen.lt rfl) rfl
  have harguments := evaluate_together covers_everyName (budget + 1) e₁ hinner hopen' hagree
    fun _ h => h
  apply harguments.sameResult_bind hinner hopen'
  intro later later' value value' hruns hlater hlater' hagree hvalue
  have hleads := (hruns.sound_leads hinner.sound).2
  have hcaptured : later.frozen site.world.store.scopes.size :=
    (hleads.preserved _ (.inr rfl)).1
  have hkept : later.store.get? site.scope = inner.world.store.get? site.scope := by
    apply hruns.get?_eq hinner.lt
    rw [boundNames, lettings_eq_nil hlets hinner.lt]
    rfl
  have fits : (Change.enter site.world.store.scopes.size (some (x, value))).Fits later :=
    fits_enter (show later.Knows (.closure (some x) e₂ _) from hcaptured) hvalue.left
  have fits' : (Change.bind site'.scope x value').Fits later' := ⟨hlater'.live, hvalue.right⟩
  have hopened := hlater.sound.open_opened fits
  have hbound := hlater'.moved (Change.step_sound hlater'.sound fits')
    (Change.step_leads hlater'.sound fits')
  have hagree := agree_opened_bound hlater hlater' hagree fits
    (hopen.lookup?_captured hleads hkept) hvalue
  exact (evaluate_together covers_everyName (budget + 1) e₂ hopened hbound hagree
    fun _ h => h).sameResult

/-- At every moment of a session, the application of a function to an argument that binds nothing
gives what the `let` gives, in the root scope or in a copy of it: the same fault, or values that
are alike down to every name that closures have captured. The application leaves the root scope as
it was, whatever its body binds and however it ends. -/
theorem application_agrees_with_let {store : Store} (hstore : Program.Reached store) (x : String)
    {e₁ : Expr} (hlets : e₁.lets = []) (e₂ : Expr) :
    (∀ budget, (outcome (evaluate budget (.apply (.fn (some x) e₂) e₁) Program.root) store).2.get?
      Program.root = store.get? Program.root) ∧
    ∀ copy, copy = (Program.root, store) ∨ copy = store.snapshot Program.root →
      ∀ budget budget',
        let first := outcome (evaluate budget (.apply (.fn (some x) e₂) e₁) Program.root) store
        let second := outcome (evaluate budget' (.letIn x e₁ e₂) copy.1) copy.2
        ¬ RanOut first.1 → ¬ RanOut second.1 →
          SameResult (Related everyName first.2 second.2) first.1 second.1 := by
  obtain ⟨world, rfl, hopen⟩ := hstore.exists_world
  constructor
  · intro budget
    exact get?_evaluate_of_lets_eq_nil (by simpa [Expr.lets] using hlets) hopen.lt budget
  · intro copy hcopy budget budget' first second h h'
    have hfirst := evaluate_prolongs (Nat.le_max_left budget budget')
      (.apply (.fn (some x) e₂) e₁) Program.root world.store h
    have hsecond := evaluate_prolongs (Nat.le_max_right budget budget') (.letIn x e₁ e₂) copy.1
      copy.2 h'
    simp only [first, second, ← hfirst, ← hsecond]
    rcases hcopy with rfl | rfl
    · exact application_same hopen hopen (hopen.agree_self _ _) hlets x e₂ _
    · exact application_same hopen hopen.copied (hopen.agree_copied _ _) hlets x e₂ _

/-- The body binds `k` again and gives a closure. The `let` leaves the new `k` behind, the
application does not. -/
theorem application_agrees_with_let_shadowed :
    let texts := ["let k = 1", "let f = |y| => y + k", "f(true)"]
    let body := Expr.binary .add (.ident "y") (.ident "k")
    let made := [Change.bind 0 "k" (.int 1), .capture 0 (some "y") body,
      .bind 0 "f" (.closure (some "y") body 1), .enter 1 (some ("y", .bool true))]
    let store := Program.start.after made
    let e₁ := Expr.apply (.ident "f") (.int 2)
    let e₂ := Expr.letIn "k" (.int 9) (.fn none (.binary .mul (.ident "x") (.ident "k")))
    let first := outcome (evaluate 7 (.apply (.fn (some "x") e₂) e₁) 0) store
    let second := outcome (evaluate 5 (.letIn "x" e₁ e₂) 0) store
    made <+: Program.history ⟨99, 99⟩ Program.root texts Program.start ∧
      first.2.get? 0 = store.get? 0 ∧ second.2.get? 0 ≠ store.get? 0 ∧ first.1.isOk = true ∧
      SameResult (Related everyName first.2 second.2) first.1 second.1 := by
  intro texts body made store e₁ e₂ first second
  have hmade : made <+: Program.history ⟨99, 99⟩ Program.root texts Program.start := by
    decide +kernel
  have hstore : Program.Reached store := ⟨⟨99, 99⟩, texts, made, hmade, rfl⟩
  have h := application_agrees_with_let hstore "x" (show e₁.lets = [] from rfl) e₂
  exact ⟨hmade, h.1 7, by decide +kernel, by decide +kernel,
    h.2 (Program.root, store) (.inl rfl) 7 5 (by decide +kernel) (by decide +kernel)⟩

end Application

end LetLang
