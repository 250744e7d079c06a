import LetLang.Proofs.Scopes
/-!
# Which bindings are visible

Scopes are made at the root, within another scope or as a copy of one, and bindings are put into
them at any time. A link always leads to an older scope, and stays as it is. So every scope has a
finite path outwards, along which names are looked up, and a new binding is visible from exactly
those scopes whose path meets it before another binding of the name.
-/
namespace LetLang.Store

/-- What may be done with the scopes of a store. -/
inductive Operation where
  | root (bindings : List (String × Value))
  | child (outer : ScopeId) (bindings : List (String × Value))
  | snapshot (original : ScopeId)
  | bind (target : ScopeId) (name : String) (value : Value)
  deriving DecidableEq, Repr

def Operation.apply : Operation → Store → Store
  | root bindings, store => (store.root bindings).2
  | child outer bindings, store => (store.child outer bindings).2
  | snapshot original, store => (store.snapshot original).2
  | bind target name value, store => store.bind target name value

/-- The store after operations one after the other. -/
def perform (store : Store) (operations : List Operation) : Store :=
  operations.foldl (fun store operation => operation.apply store) store

/-- The scope that an operation is about is there. -/
def Operation.Fits (store : Store) : Operation → Prop
  | root _ => True
  | child id _ | snapshot id | bind id _ _ => id < store.scopes.size

instance (store : Store) (operation : Operation) : Decidable (operation.Fits store) :=
  match operation with
  | .root _ => isTrue trivial
  | .child id _ | .snapshot id | .bind id _ _ =>
    inferInstanceAs (Decidable (id < store.scopes.size))

/-- Every operation is about a scope that is there when its turn comes. -/
def AllFit : List Operation → Store → Prop
  | [], _ => True
  | operation :: operations, store =>
    operation.Fits store ∧ AllFit operations (operation.apply store)

instance decidableAllFit : (operations : List Operation) → (store : Store) →
    Decidable (AllFit operations store)
  | [], _ => isTrue trivial
  | operation :: operations, store =>
    have := decidableAllFit operations (operation.apply store)
    inferInstanceAs (Decidable (_ ∧ _))

/-- The scopes from `id` outwards, along the links to the very end. -/
inductive Path (store : Store) : ScopeId → List ScopeId → Prop
  | outermost {id scope} (get : store.get? id = some scope) (link : scope.outer = none) :
      store.Path id [id]
  | within {id outer scope path} (get : store.get? id = some scope)
      (link : scope.outer = some outer) (rest : store.Path outer path) : store.Path id (id :: path)

/-- What a scope itself binds a name to. -/
def own? (store : Store) (id : ScopeId) (name : String) : Option Value :=
  (store.get? id).bind (·.get? name)

/-- The path meets the target, and no scope before it binds the name. -/
def Exposes (store : Store) (path : List ScopeId) (name : String) (target : ScopeId) : Prop :=
  ∃ before after, path = before ++ target :: after ∧
    ∀ nearer ∈ before, store.own? nearer name = none

/-! ### Links -/

/-- Every link leads to an older scope. -/
def Linked (store : Store) : Prop :=
  ∀ id scope outer, store.get? id = some scope → scope.outer = some outer → outer < id

theorem linked_empty : empty.Linked := by
  intro id scope outer hget
  simp [empty, get?] at hget

theorem Linked.alloc {store : Store} (h : store.Linked) {own : Scope}
    (howner : ∀ outer, own.outer = some outer → outer < store.scopes.size) :
    (store.alloc own).2.Linked := by
  intro id scope outer hget hlink
  rw [get?_alloc] at hget
  split at hget
  · next hid =>
    cases hget
    rw [hid]
    exact howner outer hlink
  · exact h id scope outer hget hlink

/-- Scopes stay where they are. -/
structure Keeps (store later : Store) : Prop where
  size : store.scopes.size ≤ later.scopes.size
  link : ∀ id scope, store.get? id = some scope →
    ∃ scope', later.get? id = some scope' ∧ scope'.outer = scope.outer

theorem Keeps.refl (store : Store) : store.Keeps store :=
  ⟨Nat.le_refl _, fun _ scope hget => ⟨scope, hget, rfl⟩⟩

theorem Keeps.trans {store later last : Store} (h : store.Keeps later) (h' : later.Keeps last) :
    store.Keeps last := by
  refine ⟨Nat.le_trans h.size h'.size, fun id scope hget => ?_⟩
  obtain ⟨scope', hget', hlink⟩ := h.link id scope hget
  obtain ⟨scope'', hget'', hlink'⟩ := h'.link id scope' hget'
  exact ⟨scope'', hget'', hlink'.trans hlink⟩

theorem keeps_alloc (store : Store) (own : Scope) : store.Keeps (store.alloc own).2 := by
  refine ⟨by simp, fun id scope hget => ⟨scope, ?_, rfl⟩⟩
  rw [get?_alloc, if_neg (Nat.ne_of_lt (lt_size_of_get? hget)), hget]

theorem keeps_bind (store : Store) (target : ScopeId) (name : String) (value : Value) :
    store.Keeps (store.bind target name value) := by
  refine ⟨by simp, fun id scope hget => ?_⟩
  rw [get?_bind, hget]
  split
  · exact ⟨scope.put name value, rfl, rfl⟩
  · exact ⟨scope, rfl, rfl⟩

theorem Operation.keeps (operation : Operation) (store : Store) :
    store.Keeps (operation.apply store) := by
  cases operation with
  | root | child | snapshot => exact keeps_alloc store _
  | bind target name value => exact keeps_bind store target name value

theorem keeps_perform (store : Store) (operations : List Operation) :
    store.Keeps (store.perform operations) := by
  induction operations generalizing store with
  | nil => exact .refl store
  | cons operation operations ih => exact (operation.keeps store).trans (ih _)

/-- What is done to a scope that is there keeps the links leading to older scopes. -/
theorem Operation.Fits.linked {operation : Operation} {store : Store} (hfits : operation.Fits store)
    (h : store.Linked) : (operation.apply store).Linked := by
  cases operation with
  | root bindings => exact h.alloc (by simp)
  | child outer bindings =>
    apply h.alloc
    rintro _ ⟨⟩
    exact hfits
  | snapshot original =>
    apply h.alloc
    intro outer hlink
    obtain ⟨scope, hget⟩ : ∃ scope, store.get? original = some scope :=
      ⟨_, Array.getElem?_eq_getElem hfits⟩
    rw [hget, Option.getD_some] at hlink
    exact Nat.lt_trans (h original scope outer hget hlink) hfits
  | bind target name value =>
    intro id scope outer hget hlink
    simp only [apply, get?_bind] at hget
    split at hget
    · obtain ⟨scope, hscope, rfl⟩ := Option.map_eq_some_iff.1 hget
      exact h id scope outer hscope hlink
    · exact h id scope outer hget hlink

theorem AllFit.linked {operations : List Operation} {store : Store}
    (hfits : AllFit operations store) (h : store.Linked) : (store.perform operations).Linked := by
  induction operations generalizing store with
  | nil => exact h
  | cons operation operations ih => exact ih hfits.2 (hfits.1.linked h)

/-! ### Paths -/

section Paths

variable {store later : Store} {id : ScopeId} {path : List ScopeId}

theorem Linked.exists_path (h : store.Linked) (hid : id < store.scopes.size) :
    ∃ path, store.Path id path := by
  induction id using Nat.strongRecOn with
  | ind id ih =>
    obtain ⟨scope, hget⟩ : ∃ scope, store.get? id = some scope :=
      ⟨_, Array.getElem?_eq_getElem hid⟩
    cases hlink : scope.outer with
    | none => exact ⟨[id], .outermost hget hlink⟩
    | some outer =>
      have hlt := h id scope outer hget hlink
      obtain ⟨path, hpath⟩ := ih outer hlt (Nat.lt_trans hlt hid)
      exact ⟨id :: path, .within hget hlink hpath⟩

theorem Path.eq_cons (h : store.Path id path) : ∃ rest, path = id :: rest := by
  cases h with
  | outermost => exact ⟨[], rfl⟩
  | within => exact ⟨_, rfl⟩

theorem Path.keeps (h : store.Path id path) (hkeeps : store.Keeps later) : later.Path id path := by
  induction h with
  | outermost get link =>
    obtain ⟨scope', hget, hlink⟩ := hkeeps.link _ _ get
    exact .outermost hget (hlink.trans link)
  | within get link _ ih =>
    obtain ⟨scope', hget, hlink⟩ := hkeeps.link _ _ get
    exact .within hget (hlink.trans link) ih

theorem Path.le (h : store.Path id path) (hlinked : store.Linked) : ∀ other ∈ path, other ≤ id := by
  induction h with
  | outermost => simp
  | within get link _ ih =>
    have hlt := hlinked _ _ _ get link
    intro other hother
    rcases List.mem_cons.1 hother with rfl | hmem
    · exact Nat.le_refl _
    · exact Nat.le_of_lt (Nat.lt_of_le_of_lt (ih other hmem) hlt)

/-- Every scope of a path is older than those before it. -/
theorem Path.pairwise (h : store.Path id path) (hlinked : store.Linked) :
    path.Pairwise (· > ·) := by
  induction h with
  | outermost => simp
  | within get link rest ih =>
    refine List.pairwise_cons.2 ⟨fun other hother => ?_, ih⟩
    exact Nat.lt_of_le_of_lt (rest.le hlinked other hother) (hlinked _ _ _ get link)

/-- A lookup goes along the path. -/
theorem Path.lookup?_eq (h : store.Path id path) (hlinked : store.Linked) (name : String) :
    store.lookup? id name = path.findSome? (store.own? · name) := by
  induction h with
  | outermost get link =>
    rw [lookup?_of_get? get]
    simp [own?, get, link]
  | within get link _ ih =>
    rw [lookup?_of_get? get, List.findSome?_cons, ← ih]
    simp only [own?, get, link, hlinked _ _ _ get link, if_true, Option.bind_some]
    cases Scope.get? _ name <;> rfl

theorem Path.length_chain (h : store.Path id path) (hlinked : store.Linked) :
    (store.chain id).length = path.length := by
  induction h with
  | outermost get link =>
    rw [chain]
    simp [get, link]
  | within get link _ ih =>
    rw [chain]
    simp [get, link, hlinked _ _ _ get link, ih]

theorem Path.depth_eq (h : store.Path id path) (hlinked : store.Linked) :
    store.depth id + 1 = path.length := by
  obtain ⟨rest, hrest⟩ := h.eq_cons
  rw [depth, h.length_chain hlinked, hrest]
  rfl

end Paths

/-! ### Bindings -/

theorem own?_bind {store : Store} {target : ScopeId} (htarget : target < store.scopes.size)
    (name : String) (value : Value) (id : ScopeId) (key : String) :
    (store.bind target name value).own? id key =
      if id = target ∧ key = name then some value else store.own? id key := by
  obtain ⟨scope, hget⟩ : ∃ scope, store.get? target = some scope :=
    ⟨_, Array.getElem?_eq_getElem htarget⟩
  by_cases hid : id = target
  · subst hid
    simp [own?, hget]
  · simp [own?, hid, get?_bind_of_ne name value hid]

theorem own?_alloc {store : Store} {id : ScopeId} (hid : id < store.scopes.size) (own : Scope)
    (name : String) : (store.alloc own).2.own? id name = store.own? id name := by
  simp [own?, Nat.ne_of_lt hid]

/-- A binding stays until the name is bound again in the same scope. -/
theorem Operation.Fits.own?_apply {operation : Operation} {store : Store}
    (hfits : operation.Fits store) {id : ScopeId} (hid : id < store.scopes.size) {name : String}
    (hbind : ∀ value, operation ≠ .bind id name value) :
    (operation.apply store).own? id name = store.own? id name := by
  cases operation with
  | root | child | snapshot => exact own?_alloc hid _ name
  | bind target other value =>
    rw [apply, own?_bind hfits, if_neg]
    rintro ⟨rfl, rfl⟩
    exact hbind value rfl

theorem AllFit.own?_perform {operations : List Operation} {store : Store}
    (hfits : AllFit operations store) {id : ScopeId} (hid : id < store.scopes.size) {name : String}
    (hbind : ∀ value, .bind id name value ∉ operations) :
    (store.perform operations).own? id name = store.own? id name := by
  induction operations generalizing store with
  | nil => rfl
  | cons operation operations ih =>
    have hfirst : ∀ value, operation ≠ .bind id name value :=
      fun value heq => hbind value (heq ▸ List.mem_cons_self)
    have hnow := hfits.1.own?_apply hid hfirst
    have hlater := ih hfits.2 (Nat.lt_of_lt_of_le hid (operation.keeps store).size)
      fun value hmem => hbind value (List.mem_cons_of_mem _ hmem)
    exact hlater.trans hnow

section Binding

variable {store : Store} {target : ScopeId} {name : String} {path : List ScopeId}

theorem exposes_cons {id : ScopeId} :
    store.Exposes (id :: path) name target ↔
      id = target ∨ store.own? id name = none ∧ store.Exposes path name target := by
  constructor
  · rintro ⟨before, after, hpath, hbefore⟩
    cases before with
    | nil => exact .inl (List.cons.inj hpath).1
    | cons first before =>
      obtain ⟨rfl, rfl⟩ := List.cons.inj hpath
      rw [List.forall_mem_cons] at hbefore
      exact .inr ⟨hbefore.1, before, after, rfl, hbefore.2⟩
  · rintro (rfl | ⟨hnone, before, after, rfl, hbefore⟩)
    · exact ⟨[], path, rfl, by simp⟩
    · exact ⟨id :: before, after, rfl, List.forall_mem_cons.2 ⟨hnone, hbefore⟩⟩

theorem Exposes.mem (h : store.Exposes path name target) : target ∈ path := by
  obtain ⟨before, after, rfl, -⟩ := h
  simp

/-- What is found along a path after a name is bound somewhere: the new value if the path meets it
before another binding of the name, and otherwise what was found before. -/
theorem findSome?_own?_bind (htarget : target < store.scopes.size) (value : Value)
    (path : List ScopeId) (key : String) :
    (key = name ∧ store.Exposes path name target →
      path.findSome? ((store.bind target name value).own? · key) = some value) ∧
    (¬ (key = name ∧ store.Exposes path name target) →
      path.findSome? ((store.bind target name value).own? · key) =
        path.findSome? (store.own? · key)) := by
  induction path with
  | nil =>
    refine ⟨fun ⟨_, hexposes⟩ => ?_, fun _ => rfl⟩
    simpa using hexposes.mem
  | cons id path ih =>
    simp only [List.findSome?_cons, own?_bind htarget, exposes_cons] at ih ⊢
    by_cases hkey : key = name
    · subst hkey
      by_cases hid : id = target
      · simp [hid]
      · cases hown : store.own? id key with
        | none => simpa [hid, hown] using ih
        | some found => simp [hid]
    · simp [hkey]

end Binding

/-! ### Children and snapshots -/

section Made

variable {store : Store} {id : ScopeId} {path : List ScopeId}

theorem Path.child (h : store.Path id path) (bindings : List (String × Value)) :
    (store.child id bindings).2.Path store.scopes.size (store.scopes.size :: path) := by
  have hget : (store.child id bindings).2.get? store.scopes.size =
      some (.ofList bindings (some id)) := by
    simp [Store.child]
  exact .within hget rfl (h.keeps (keeps_alloc store _))

theorem get?_snapshot {scope : Scope} (h : store.get? id = some scope) :
    (store.snapshot id).2.get? store.scopes.size = some scope := by
  simp [snapshot, h]

/-- A snapshot is within the same scopes as its original. -/
theorem Path.snapshot {rest : List ScopeId} (h : store.Path id (id :: rest)) :
    (store.snapshot id).2.Path store.scopes.size (store.scopes.size :: rest) := by
  cases h with
  | outermost get link => exact .outermost (get?_snapshot get) link
  | within get link rest =>
    exact .within (get?_snapshot get) link (rest.keeps (keeps_alloc store _))

theorem own?_snapshot (hid : id < store.scopes.size) (name : String) :
    (store.snapshot id).2.own? store.scopes.size name = store.own? id name := by
  obtain ⟨scope, hget⟩ : ∃ scope, store.get? id = some scope :=
    ⟨_, Array.getElem?_eq_getElem hid⟩
  rw [own?, own?, get?_snapshot hget, hget]

theorem Path.unique {path' : List ScopeId} (h : store.Path id path) (h' : store.Path id path') :
    path = path' := by
  induction h generalizing path' with
  | outermost get link =>
    cases h' with
    | outermost => rfl
    | within get' link' =>
      rw [get] at get'
      cases get'
      rw [link] at link'
      cases link'
  | within get link _ ih =>
    cases h' with
    | outermost get' link' =>
      rw [get] at get'
      cases get'
      rw [link] at link'
      cases link'
    | within get' link' rest' =>
      rw [get] at get'
      cases get'
      rw [link] at link'
      cases link'
      rw [ih rest']

end Made

/-- The scopes that a snapshot and its original are within, at any later moment. -/
theorem Linked.exists_shared {store : Store} (h : store.Linked) {original : ScopeId}
    (horiginal : original < store.scopes.size) (later : List Operation) :
    let last := (store.snapshot original).2.perform later
    ∃ shared, last.Path original (original :: shared) ∧
      last.Path store.scopes.size (store.scopes.size :: shared) := by
  intro last
  obtain ⟨path, hpath⟩ := h.exists_path horiginal
  obtain ⟨shared, rfl⟩ := hpath.eq_cons
  have hkeeps := keeps_perform (store.snapshot original).2 later
  exact ⟨shared, (hpath.keeps (keeps_alloc store _)).keeps hkeeps, hpath.snapshot.keeps hkeeps⟩

theorem Linked.bind_visible {store : Store} (h : store.Linked) {target id : ScopeId}
    (htarget : target < store.scopes.size) {path : List ScopeId} (hpath : store.Path id path)
    (name : String) (value : Value) (key : String) :
    let bound := store.bind target name value
    (key = name ∧ store.Exposes path name target → bound.lookup? id key = some value) ∧
    (¬ (key = name ∧ store.Exposes path name target) →
      bound.lookup? id key = store.lookup? id key) := by
  intro bound
  have hbound : bound.Linked :=
    @Operation.Fits.linked (.bind target name value) store htarget h
  rw [(hpath.keeps (keeps_bind store target name value)).lookup?_eq hbound, hpath.lookup?_eq h]
  exact findSome?_own?_bind htarget value path key

theorem Linked.depth_child {store : Store} (h : store.Linked) {parent : ScopeId}
    (hparent : parent < store.scopes.size) (bindings : List (String × Value))
    {later : List Operation} (hlater : AllFit later (store.child parent bindings).2) :
    let last := (store.child parent bindings).2.perform later
    last.depth store.scopes.size = last.depth parent + 1 := by
  intro last
  obtain ⟨path, hpath⟩ := h.exists_path hparent
  have hkeeps := keeps_perform (store.child parent bindings).2 later
  have hlast : last.Linked :=
    hlater.linked (@Operation.Fits.linked (.child parent bindings) store hparent h)
  have hdepth := ((hpath.keeps (keeps_alloc store _)).keeps hkeeps).depth_eq hlast
  have hdepth' := ((hpath.child bindings).keeps hkeeps).depth_eq hlast
  rw [List.length_cons, ← hdepth] at hdepth'
  exact Nat.succ.inj hdepth'

/-- What becomes of a snapshot. -/
theorem Linked.snapshot_apart {store : Store} (h : store.Linked) {original : ScopeId}
    (horiginal : original < store.scopes.size) {later : List Operation}
    (hlater : AllFit later (store.snapshot original).2) :
    let copy := store.scopes.size
    let last := (store.snapshot original).2.perform later
    last.depth copy = last.depth original ∧
    (∀ name found, store.own? original name = some found →
      (∀ value, .bind copy name value ∉ later) → last.lookup? copy name = some found) ∧
    (∀ name value key,
      (last.bind original name value).lookup? copy key = last.lookup? copy key) ∧
    ∀ shared, last.Path original (original :: shared) →
      last.Path copy (copy :: shared) ∧
      ∀ outer ∈ shared, ∀ name value, last.Exposes (copy :: shared) name outer →
        (last.bind outer name value).lookup? copy name = some value := by
  intro copy last
  have hlast : last.Linked :=
    hlater.linked (@Operation.Fits.linked (.snapshot original) store horiginal h)
  have hkeeps := keeps_perform (store.snapshot original).2 later
  have hsize : (store.snapshot original).2.scopes.size = store.scopes.size + 1 :=
    size_alloc store _
  have hcopy : copy < (store.snapshot original).2.scopes.size := by omega
  have hle : store.scopes.size < last.scopes.size := Nat.lt_of_lt_of_le hcopy hkeeps.size
  obtain ⟨shared, hpath, hpath'⟩ := h.exists_shared horiginal later
  refine ⟨?_, ?_, ?_, ?_⟩
  · have hdepth := hpath.depth_eq hlast
    have hdepth' := hpath'.depth_eq hlast
    rw [List.length_cons] at hdepth hdepth'
    exact Nat.succ.inj (hdepth'.trans hdepth.symm)
  · intro name found hfound hbind
    have hown : last.own? copy name = some found := by
      rw [hlater.own?_perform hcopy hbind, own?_snapshot horiginal, hfound]
    rw [hpath'.lookup?_eq hlast, List.findSome?_cons, hown]
  · -- The original is not on the path of the copy: it is older than the copy, and all that is
    -- around the two is older still.
    intro name value key
    apply (hlast.bind_visible (Nat.lt_trans horiginal hle) hpath' name value key).2
    rintro ⟨-, hexposes⟩
    rcases List.mem_cons.1 hexposes.mem with heq | hmem
    · exact Nat.ne_of_lt horiginal heq
    · exact Nat.lt_irrefl _ ((List.pairwise_cons.1 (hpath.pairwise hlast)).1 original hmem)
  · intro shared' hshared
    obtain rfl := (List.cons.inj (hpath.unique hshared)).2
    refine ⟨hpath', fun outer houter name value hexposes => ?_⟩
    have hlt : outer < original := (List.pairwise_cons.1 (hpath.pairwise hlast)).1 outer houter
    have htarget : outer < last.scopes.size := Nat.lt_trans hlt (Nat.lt_trans horiginal hle)
    exact (hlast.bind_visible htarget hpath' name value name).1 ⟨rfl, hexposes⟩

/-- Whatever is done with scopes, links lead to older scopes, and from every scope a path through
ever older ones leads outwards, which lookups follow and depths measure. Binding a name changes what
is found for that name only, and only from scopes whose path meets the binding before another one of
the name. A child is one deeper than the scope that it is within. A snapshot is as deep as its
original. It keeps the bindings that it was made with until they are replaced in itself, sees
nothing that is bound in the original later, and sees what is bound in the scopes around the two,
unless the name is bound nearer. -/
theorem bindings_are_seen_along_paths {operations : List Operation} (h : AllFit operations empty) :
    let store := empty.perform operations
    store.Linked ∧
    (∀ id < store.scopes.size, ∃ path, store.Path id path ∧ path.Pairwise (· > ·) ∧
      store.depth id + 1 = path.length ∧
      ∀ name, store.lookup? id name = path.findSome? (store.own? · name)) ∧
    (∀ target < store.scopes.size, ∀ id path, store.Path id path → ∀ name value key,
      let bound := store.bind target name value
      (key = name ∧ store.Exposes path name target → bound.lookup? id key = some value) ∧
      (¬ (key = name ∧ store.Exposes path name target) →
        bound.lookup? id key = store.lookup? id key)) ∧
    (∀ parent < store.scopes.size, ∀ bindings later,
      let made := store.child parent bindings
      let last := made.2.perform later
      AllFit later made.2 → last.depth made.1 = last.depth parent + 1) ∧
    ∀ original < store.scopes.size, ∀ later,
      let made := store.snapshot original
      let copy := made.1
      let last := made.2.perform later
      AllFit later made.2 →
      last.depth copy = last.depth original ∧
      (∀ name found, store.own? original name = some found →
        (∀ value, .bind copy name value ∉ later) → last.lookup? copy name = some found) ∧
      (∀ name value key,
        (last.bind original name value).lookup? copy key = last.lookup? copy key) ∧
      ∀ shared, last.Path original (original :: shared) →
        last.Path copy (copy :: shared) ∧
        ∀ outer ∈ shared, ∀ name value, last.Exposes (copy :: shared) name outer →
          (last.bind outer name value).lookup? copy name = some value := by
  intro store
  have hlinked : store.Linked := h.linked linked_empty
  refine ⟨hlinked, fun id hid => ?_, ?_, ?_, ?_⟩
  · obtain ⟨path, hpath⟩ := hlinked.exists_path hid
    exact ⟨path, hpath, hpath.pairwise hlinked, hpath.depth_eq hlinked, hpath.lookup?_eq hlinked⟩
  · intro target htarget id path hpath name value key
    exact hlinked.bind_visible htarget hpath name value key
  · intro parent hparent bindings later made last hlater
    exact hlinked.depth_child hparent bindings hlater
  · intro original horiginal later made copy last hlater
    exact hlinked.snapshot_apart horiginal hlater

/-- The snapshot of a child keeps `y`, which is bound again in the child, and sees the new `x` of
the scope around both. -/
theorem bindings_are_seen_along_paths_snapshot :
    let operations := [Operation.root [("x", .int 1)], .child 0 [("y", .int 2)]]
    let later := [Operation.bind 1 "y" (.int 4), .child 2 [], .bind 2 "z" .unit]
    let store := empty.perform operations
    let last := (store.snapshot 1).2.perform later
    AllFit operations empty ∧ AllFit later (store.snapshot 1).2 ∧
      last.lookup? 1 "y" = some (.int 4) ∧ last.depth 2 = last.depth 1 ∧
      last.lookup? 2 "y" = some (.int 2) ∧
      (last.bind 1 "x" (.int 7)).lookup? 2 "x" = last.lookup? 2 "x" ∧
      (last.bind 0 "x" (.int 5)).lookup? 2 "x" = some (.int 5) := by
  intro operations later store last
  have hfits : AllFit operations empty := by decide +kernel
  have hlater : AllFit later (store.snapshot 1).2 := by decide +kernel
  obtain ⟨-, -, -, -, hsnapshot⟩ := bindings_are_seen_along_paths hfits
  obtain ⟨hdepth, hkept, hapart, hshared⟩ := hsnapshot 1 (by decide +kernel) later hlater
  have hpath : last.Path 1 [1, 0] :=
    .within (show last.get? 1 = some ⟨[("y", .int 4)], some 0⟩ by decide +kernel) rfl
      (.outermost (show last.get? 0 = some ⟨[("x", .int 1)], none⟩ by decide +kernel) rfl)
  have hother : ∀ value, Operation.bind 2 "y" value ∉ later := by simp [later]
  refine ⟨hfits, hlater, by decide +kernel, hdepth, ?_, hapart "x" (.int 7) "x", ?_⟩
  · exact hkept "y" (.int 2) (by decide +kernel) hother
  · apply (hshared [0] hpath).2 0 (by decide)
    exact ⟨[2], [], rfl, by decide +kernel⟩

end LetLang.Store
