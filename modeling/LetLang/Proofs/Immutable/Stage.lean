import LetLang.Proofs.Budget
import LetLang.Proofs.Immutable
import LetLang.Proofs.Scopes
/-!
# Scopes of a store as immutable scopes

A value of a store can be read as an immutable value by following its captured scopes outwards.
Evaluation changes the current scope and makes new ones, but never touches a scope that a closure
has captured: such scopes are frozen, the current one is not, and so what a closure reads as stays
the same. Step by step, evaluation on the store therefore gives what the immutable semantics gives.
-/
namespace LetLang

open Immutable (Frame)

/-! ### Reading values -/

mutual

/-- The value reads as an immutable value, and all scopes it reaches on the way are frozen. -/
inductive Reads (frozen : ScopeId → Prop) (store : Store) : Value → Immutable.Value → Prop
  | unit : Reads frozen store .unit .unit
  | int (n : Int) : Reads frozen store (.int n) (.int n)
  | bool (b : Bool) : Reads frozen store (.bool b) (.bool b)
  | closure (param : Option String) (body : Expr) {captured : ScopeId} {frames : List Frame}
      (scopes : ReadsScopes frozen store (some captured) frames) :
      Reads frozen store (.closure param body captured) (.closure param body frames)

/-- The scope and those around it read as a list of frames, scope by scope and name by name. -/
inductive ReadsScopes (frozen : ScopeId → Prop) (store : Store) :
    Option ScopeId → List Frame → Prop
  | nil : ReadsScopes frozen store none []
  | cons {id : ScopeId} {scope : Scope} {frame : Frame} {frames : List Frame}
      (isFrozen : frozen id) (get : store.get? id = some scope)
      (older : ∀ outer, scope.outer = some outer → outer < id)
      (bindings : ∀ name, ReadsBinding frozen store (scope.get? name) (frame.lookup name))
      (outside : ReadsScopes frozen store scope.outer frames) :
      ReadsScopes frozen store (some id) (frame :: frames)

/-- Neither is bound, or both are, to a value and what it reads as. -/
inductive ReadsBinding (frozen : ScopeId → Prop) (store : Store) :
    Option Value → Option Immutable.Value → Prop
  | unbound : ReadsBinding frozen store none none
  | bound {value : Value} {read : Immutable.Value} (reads : Reads frozen store value read) :
      ReadsBinding frozen store (some value) (some read)

end

/-- The bindings of a scope read as a frame: the same names, bound to values that read so. -/
def ReadsFrame (frozen : ScopeId → Prop) (store : Store) (scope : Scope) (frame : Frame) : Prop :=
  ∀ name, ReadsBinding frozen store (scope.get? name) (frame.lookup name)

/-- The scopes of one store that are frozen there are unchanged, and frozen, in another. -/
def Preserved (frozen frozen' : ScopeId → Prop) (store store' : Store) : Prop :=
  ∀ id, frozen id → frozen' id ∧ store'.get? id = store.get? id

section Preserved

variable {frozen frozen' : ScopeId → Prop} {store store' : Store}

mutual

theorem Reads.preserved (h : Preserved frozen frozen' store store') {value : Value}
    {read : Immutable.Value} : Reads frozen store value read → Reads frozen' store' value read
  | .unit => .unit
  | .int n => .int n
  | .bool b => .bool b
  | .closure param body scopes => .closure param body (scopes.preserved h)

theorem ReadsScopes.preserved (h : Preserved frozen frozen' store store') {id : Option ScopeId}
    {frames : List Frame} :
    ReadsScopes frozen store id frames → ReadsScopes frozen' store' id frames
  | .nil => .nil
  | .cons isFrozen get older bindings outside =>
    .cons (h _ isFrozen).1 ((h _ isFrozen).2.trans get) older
      (fun name => (bindings name).preserved h) (outside.preserved h)

theorem ReadsBinding.preserved (h : Preserved frozen frozen' store store') {value : Option Value}
    {read : Option Immutable.Value} :
    ReadsBinding frozen store value read → ReadsBinding frozen' store' value read
  | .unbound => .unbound
  | .bound reads => .bound (reads.preserved h)

end

theorem ReadsFrame.preserved (h : Preserved frozen frozen' store store') {scope : Scope}
    {frame : Frame} (hf : ReadsFrame frozen store scope frame) :
    ReadsFrame frozen' store' scope frame :=
  fun name => (hf name).preserved h

/-- Of two bindings, the first one that is there counts. -/
theorem ReadsBinding.or {value value' : Option Value} {read read' : Option Immutable.Value}
    (h : ReadsBinding frozen store value read) (h' : ReadsBinding frozen store value' read') :
    ReadsBinding frozen store (value.or value') (read.or read') := by
  cases h with
  | unbound => exact h'
  | bound reads => exact .bound reads

/-- A lookup from a scope finds what the lookup through its frames finds. -/
theorem lookup?_reads {id : ScopeId} {scope : Scope} {frame : Frame} {frames : List Frame}
    (hget : store.get? id = some scope) (holder : ∀ outer, scope.outer = some outer → outer < id)
    (hframe : ReadsFrame frozen store scope frame)
    (houtside : ReadsScopes frozen store scope.outer frames) (name : String) :
    ReadsBinding frozen store (store.lookup? id name)
      (Immutable.lookup? (frame :: frames) name) := by
  induction frames generalizing id scope frame with
  | nil =>
    have houter : scope.outer = none := by
      cases hs : scope.outer with
      | none => rfl
      | some outer => rw [hs] at houtside; cases houtside
    rw [Store.lookup?_of_get? hget, houter, Immutable.lookup?_cons]
    exact (hframe name).or .unbound
  | cons next frames ih =>
    obtain ⟨outer, houter⟩ : ∃ outer, scope.outer = some outer := by
      cases hs : scope.outer with
      | none => rw [hs] at houtside; cases houtside
      | some outer => exact ⟨outer, rfl⟩
    rw [houter] at houtside
    cases houtside with
    | cons isFrozen get older bindings outside =>
      have hrest := ih get older bindings outside
      rw [Store.lookup?_of_get? hget, houter, Immutable.lookup?_cons]
      simp only [holder outer houter, if_true]
      exact (hframe name).or hrest

end Preserved

/-! ### Stages of an evaluation -/

/-- A store with its frozen scopes, and the frame that stands for the current scope. -/
structure Stage where
  frozen : ScopeId → Prop
  store : Store
  frame : Frame

namespace Stage

/-- The frame stands for the scope, `outer` for the scopes around it, and while those are frozen,
the scope itself is not. -/
structure Valid (scope : ScopeId) (outer : List Frame) (stage : Stage) : Prop where
  bounded : ∀ id, stage.frozen id → id < stage.store.scopes.size
  live : ¬ stage.frozen scope
  current : ∃ own, stage.store.get? scope = some own ∧
    (∀ id, own.outer = some id → id < scope) ∧
    ReadsFrame stage.frozen stage.store own stage.frame ∧
    ReadsScopes stage.frozen stage.store own.outer outer

/-- What an evaluation in a scope may do: bind in that scope, make scopes, freeze made ones. -/
structure Grows (scope : ScopeId) (stage later : Stage) : Prop where
  size : stage.store.scopes.size ≤ later.store.scopes.size
  frozen : ∀ id, stage.frozen id → later.frozen id
  fresh : ∀ id, later.frozen id → stage.frozen id ∨ stage.store.scopes.size ≤ id
  unchanged : ∀ id, id < stage.store.scopes.size → id ≠ scope →
    later.store.get? id = stage.store.get? id

variable {scope : ScopeId} {outer : List Frame} {stage later last : Stage}

theorem Grows.refl (scope : ScopeId) (stage : Stage) : Grows scope stage stage where
  size := Nat.le_refl _
  frozen _ h := h
  fresh _ h := .inl h
  unchanged _ _ _ := rfl

theorem Grows.trans (h : Grows scope stage later) (h' : Grows scope later last) :
    Grows scope stage last where
  size := Nat.le_trans h.size h'.size
  frozen id hid := h'.frozen id (h.frozen id hid)
  fresh id hid := by
    rcases h'.fresh id hid with hid | hid
    · exact h.fresh id hid
    · exact .inr (Nat.le_trans h.size hid)
  unchanged id hid hne :=
    (h'.unchanged id (Nat.lt_of_lt_of_le hid h.size) hne).trans (h.unchanged id hid hne)

/-- The current scope is not frozen, so growing keeps what is. -/
theorem Valid.preserved (hv : Valid scope outer stage) (hg : Grows scope stage later) :
    Preserved stage.frozen later.frozen stage.store later.store := by
  intro id hid
  refine ⟨hg.frozen id hid, hg.unchanged id (hv.bounded id hid) ?_⟩
  rintro rfl
  exact hv.live hid

/-- A stage stays valid while the current scope is left alone. -/
theorem Valid.of_unchanged (hv : Valid scope outer stage) (hg : Grows scope stage later)
    (hbounded : ∀ id, later.frozen id → id < later.store.scopes.size)
    (hget : later.store.get? scope = stage.store.get? scope) (hframe : later.frame = stage.frame) :
    Valid scope outer later := by
  obtain ⟨own, hown, holder, hreads, houter⟩ := hv.current
  have hp := hv.preserved hg
  refine ⟨hbounded, ?_, own, hget.trans hown, holder, ?_, houter.preserved hp⟩
  · intro hfrozen
    rcases hg.fresh scope hfrozen with h | h
    · exact hv.live h
    · exact Nat.not_lt.2 h (Store.lt_size_of_get? hown)
  · rw [hframe]
    exact hreads.preserved hp

theorem Valid.lt_size (hv : Valid scope outer stage) : scope < stage.store.scopes.size := by
  obtain ⟨own, hget, _⟩ := hv.current
  exact Store.lt_size_of_get? hget

end Stage

/-! ### Computations that agree -/

/-- The same fault, or results that are related. -/
inductive SameResult {α β : Type} (related : α → β → Prop) :
    Except Fault α → Except Fault β → Prop
  | ok {a : α} {b : β} (h : related a b) : SameResult related (.ok a) (.ok b)
  | error (fault : Fault) : SameResult related (.error fault) (.error fault)

theorem SameResult.not_ranOut {α β : Type} {related : α → β → Prop} {result : Except Fault α}
    {result' : Except Fault β} (h : SameResult related result result') (h' : ¬ RanOut result') :
    ¬ RanOut result := by
  cases h with
  | ok => simp
  | error fault => simpa using h'

theorem SameResult.imp {α β : Type} {related related' : α → β → Prop} {result : Except Fault α}
    {result' : Except Fault β} (himp : ∀ a b, related a b → related' a b)
    (h : SameResult related result result') : SameResult related' result result' := by
  cases h with
  | ok hab => exact .ok (himp _ _ hab)
  | error fault => exact .error fault

/-- From a stage on, the two computations give the same fault or related results, and lead to a
stage that is valid again. -/
def AgreesAt {α β : Type} (scope : ScopeId) (outer : List Frame) (stage : Stage)
    (x : Evaluating α) (y : Immutable.Evaluating β) (related : Stage → α → β → Prop) : Prop :=
  ∃ later : Stage, later.store = (outcome x stage.store).2 ∧
    later.frame = (outcome y stage.frame).2 ∧ later.Valid scope outer ∧
    Stage.Grows scope stage later ∧
    SameResult (related later) (outcome x stage.store).1 (outcome y stage.frame).1

/-- The relation of values at a stage. -/
def Stage.Relates (stage : Stage) (value : Value) (read : Immutable.Value) : Prop :=
  Reads stage.frozen stage.store value read

section AgreesAt

variable {α β α' β' : Type} {scope : ScopeId} {outer : List Frame} {stage : Stage}

theorem agreesAt_lift (hv : stage.Valid scope outer) {related : Stage → α → β → Prop}
    {result : Except Fault α} {result' : Except Fault β}
    (h : SameResult (related stage) result result') :
    AgreesAt scope outer stage (Evaluating.lift result) (Immutable.lift result') related :=
  ⟨stage, rfl, rfl, hv, .refl scope stage, h⟩

theorem agreesAt_pure (hv : stage.Valid scope outer) {related : Stage → α → β → Prop} {a : α}
    {b : β} (h : related stage a b) :
    AgreesAt scope outer stage (pure a) (pure b) related :=
  ⟨stage, rfl, rfl, hv, .refl scope stage, .ok h⟩

theorem agreesAt_throw (hv : stage.Valid scope outer) (related : Stage → α → β → Prop)
    (fault : Fault) : AgreesAt scope outer stage (throw fault) (throw fault) related :=
  ⟨stage, rfl, rfl, hv, .refl scope stage, .error fault⟩

theorem AgreesAt.bind {x : Evaluating α} {y : Immutable.Evaluating β}
    {related : Stage → α → β → Prop} {f : α → Evaluating α'} {g : β → Immutable.Evaluating β'}
    {related' : Stage → α' → β' → Prop} (hx : AgreesAt scope outer stage x y related)
    (hf : ∀ later a b, later.Valid scope outer → Stage.Grows scope stage later →
      related later a b → AgreesAt scope outer later (f a) (g b) related') :
    AgreesAt scope outer stage (x >>= f) (y >>= g) related' := by
  obtain ⟨later, hstore, hframe, hv, hg, hr⟩ := hx
  unfold AgreesAt
  rw [outcome_bind, outcome_bind]
  rcases hxs : outcome x stage.store with ⟨result, store⟩
  rcases hys : outcome y stage.frame with ⟨result', frame⟩
  rw [hxs, hys] at hr
  rw [hxs] at hstore
  rw [hys] at hframe
  cases hr with
  | error fault => exact ⟨later, hstore, hframe, hv, hg, .error fault⟩
  | @ok a b hab =>
    obtain ⟨last, hstore', hframe', hv', hg', hr'⟩ := hf later a b hv hg hab
    simp only at hstore hframe
    rw [← hstore, ← hframe]
    exact ⟨last, hstore', hframe', hv', hg.trans hg', hr'⟩

end AgreesAt

/-! ### Operators -/

/-- The value without the scope that a closure has captured. -/
def Value.forget : Value → Value
  | .closure param body _ => .closure param body 0
  | value => value

section Operators

variable {frozen : ScopeId → Prop} {store : Store}

theorem Reads.face_eq {value : Value} {read : Immutable.Value} (h : Reads frozen store value read) :
    read.face = value.forget := by
  cases h <;> rfl

theorem text?_forget (value : Value) : value.forget.text? = value.text? := by
  cases value <;> rfl

theorem describe?_forget (value : Value) : value.forget.describe? = value.describe? := by
  cases value <;> rfl

theorem binaryMismatch_forget (op : BinaryOp) (left right : Value) :
    Value.binaryMismatch op left.forget right.forget = Value.binaryMismatch op left right := by
  rw [Value.binaryMismatch, describe?_forget, describe?_forget, Value.binaryMismatch]

theorem binary_closure_left (op : BinaryOp) (param : Option String) (body : Expr)
    (captured : ScopeId) (right : Value) :
    Value.binary op (.closure param body captured) right =
      Value.binaryMismatch op (.closure param body captured) right := by
  cases op <;> rfl

theorem binary_closure_right (op : BinaryOp) (left : Value) (param : Option String) (body : Expr)
    (captured : ScopeId) :
    Value.binary op left (.closure param body captured) =
      Value.binaryMismatch op left (.closure param body captured) := by
  cases op <;> cases left <;> rfl

/-- Operators do not look at captured scopes. -/
theorem binary_forget (op : BinaryOp) (left right : Value) :
    left.forget.binary op right.forget = left.binary op right := by
  have h := binaryMismatch_forget op left right
  cases left with
  | closure param body captured =>
    simpa only [Value.forget, binary_closure_left] using h
  | unit | int | bool =>
    cases right with
    | closure param body captured => simpa only [Value.forget, binary_closure_right] using h
    | unit | int | bool => simp only [Value.forget]

theorem unary_forget (op : UnaryOp) (operand : Value) :
    operand.forget.unary op = operand.unary op := by
  cases op <;> cases operand <;> rfl

/-- The values that hold no scope read as themselves in every store. -/
theorem reads_ofFace {value : Value}
    (h : ∀ param body captured, value ≠ .closure param body captured) :
    Reads frozen store value (.ofFace value) := by
  cases value with
  | unit => exact .unit
  | int n => exact .int n
  | bool b => exact .bool b
  | closure param body captured => exact absurd rfl (h param body captured)

/-- No operator gives a closure. -/
theorem binary_ne_closure {op : BinaryOp} {left right value : Value}
    (h : left.binary op right = .ok value) (param : Option String) (body : Expr)
    (captured : ScopeId) : value ≠ .closure param body captured := by
  rintro rfl
  unfold Value.binary at h
  split at h <;> try cases h
  · split at h
    · unfold Value.complain at h
      split at h <;> cases h
    · cases h
  · unfold Value.binaryMismatch Value.complain at h
    split at h <;> cases h

theorem unary_ne_closure {op : UnaryOp} {operand value : Value}
    (h : operand.unary op = .ok value) (param : Option String) (body : Expr)
    (captured : ScopeId) : value ≠ .closure param body captured := by
  rintro rfl
  unfold Value.unary at h
  split at h <;> try cases h
  unfold Value.complain at h
  split at h <;> cases h

theorem sameResult_map_ofFace {result : Except Fault Value}
    (h : ∀ value, result = .ok value → ∀ param body captured,
      value ≠ .closure param body captured) :
    SameResult (Reads frozen store) result (result.map Immutable.Value.ofFace) := by
  cases result with
  | error fault => exact .error fault
  | ok value => exact .ok (reads_ofFace (h value rfl))

theorem sameResult_binary (op : BinaryOp) {left right : Value} {left' right' : Immutable.Value}
    (hl : Reads frozen store left left') (hr : Reads frozen store right right') :
    SameResult (Reads frozen store) (left.binary op right) (left'.binary op right') := by
  rw [Immutable.Value.binary, hl.face_eq, hr.face_eq, binary_forget]
  exact sameResult_map_ofFace fun value h => binary_ne_closure h

theorem sameResult_unary (op : UnaryOp) {operand : Value} {operand' : Immutable.Value}
    (h : Reads frozen store operand operand') :
    SameResult (Reads frozen store) (operand.unary op) (operand'.unary op) := by
  rw [Immutable.Value.unary, h.face_eq, unary_forget]
  exact sameResult_map_ofFace fun value h => unary_ne_closure h

theorem sameResult_complain {α β : Type} (related : α → β → Prop) (error : Option LanguageError) :
    SameResult related (Value.complain error) (Value.complain error) := by
  cases error <;> exact .error _

end Operators

end LetLang
