import LetLang.Evaluation
/-!
# Computations with faults

What a computation gives from a state, and how the outcome of a sequence follows from the outcomes
of its parts. A computation that may run out of its budget is compared with one that has more of
it: the two agree unless the first runs out.
-/
namespace LetLang

variable {S α β : Type}

/-- The result of a computation from a state, and the state that it leaves. -/
def outcome (x : ExceptT Fault (StateM S) α) (s : S) : Except Fault α × S :=
  x.run.run s

@[simp] theorem outcome_pure (a : α) (s : S) :
    outcome (pure a : ExceptT Fault (StateM S) α) s = (.ok a, s) := rfl

@[simp] theorem outcome_throw (fault : Fault) (s : S) :
    outcome (throw fault : ExceptT Fault (StateM S) α) s = (.error fault, s) := rfl

@[simp] theorem outcome_get (s : S) :
    outcome (get : ExceptT Fault (StateM S) S) s = (.ok s, s) := rfl

@[simp] theorem outcome_modifyGet (f : S → α × S) (s : S) :
    outcome (modifyGet f : ExceptT Fault (StateM S) α) s = (.ok (f s).1, (f s).2) := rfl

theorem outcome_bind (x : ExceptT Fault (StateM S) α)
    (f : α → ExceptT Fault (StateM S) β) (s : S) :
    outcome (x >>= f) s =
      match outcome x s with
      | (.ok a, s') => outcome (f a) s'
      | (.error fault, s') => (.error fault, s') := by
  unfold outcome
  simp only [ExceptT.run_bind, StateT.run_bind]
  rcases StateT.run x.run s with ⟨result, s'⟩
  cases result <;> rfl

theorem outcome_bind_of_ok {x : ExceptT Fault (StateM S) α} {s s' : S} {a : α}
    (h : outcome x s = (.ok a, s')) (f : α → ExceptT Fault (StateM S) β) :
    outcome (x >>= f) s = outcome (f a) s' := by
  rw [outcome_bind, h]

theorem outcome_bind_of_error {x : ExceptT Fault (StateM S) α} {s s' : S} {fault : Fault}
    (h : outcome x s = (.error fault, s')) (f : α → ExceptT Fault (StateM S) β) :
    outcome (x >>= f) s = (.error fault, s') := by
  rw [outcome_bind, h]

theorem outcome_map (f : α → β) (x : ExceptT Fault (StateM S) α) (s : S) :
    outcome (f <$> x) s = (outcome x s).map (Except.map f) id := by
  rw [map_eq_pure_bind, outcome_bind]
  rcases outcome x s with ⟨_ | _, _⟩ <;> rfl

/-- Sequences with the same first part are the same if what comes after it is. -/
theorem outcome_bind_congr {x : ExceptT Fault (StateM S) α}
    {f g : α → ExceptT Fault (StateM S) β} {s : S}
    (h : ∀ a s', outcome x s = (.ok a, s') → outcome (f a) s' = outcome (g a) s') :
    outcome (x >>= f) s = outcome (x >>= g) s := by
  rcases hx : outcome x s with ⟨fault | a, s'⟩
  · rw [outcome_bind_of_error hx, outcome_bind_of_error hx]
  · rw [outcome_bind_of_ok hx, outcome_bind_of_ok hx, h a s' hx]

/-- A sequence succeeds exactly if its parts do, one after the other. -/
theorem outcome_bind_eq_ok {x : ExceptT Fault (StateM S) α}
    {f : α → ExceptT Fault (StateM S) β} {s s'' : S} {b : β} :
    outcome (x >>= f) s = (.ok b, s'') ↔
      ∃ a s', outcome x s = (.ok a, s') ∧ outcome (f a) s' = (.ok b, s'') := by
  constructor
  · intro h
    rcases hx : outcome x s with ⟨fault | a, s'⟩
    · rw [outcome_bind_of_error hx] at h
      cases h
    · rw [outcome_bind_of_ok hx] at h
      exact ⟨a, s', rfl, h⟩
  · rintro ⟨a, s', hx, hf⟩
    rw [outcome_bind_of_ok hx, hf]

/-- A sequence fails if its first part does, or its second part after the first. -/
theorem outcome_bind_eq_error {x : ExceptT Fault (StateM S) α}
    {f : α → ExceptT Fault (StateM S) β} {s : S} {fault : Fault} :
    (outcome (x >>= f) s).1 = .error fault ↔
      (outcome x s).1 = .error fault ∨
        ∃ a s', outcome x s = (.ok a, s') ∧ (outcome (f a) s').1 = .error fault := by
  rcases hx : outcome x s with ⟨found | a, s'⟩
  · rw [outcome_bind_of_error hx]
    simp
  · rw [outcome_bind_of_ok hx]
    constructor
    · exact fun h => .inr ⟨a, s', rfl, h⟩
    · rintro (h | ⟨a, s', h, hrest⟩)
      · cases h
      · cases h
        exact hrest

/-! ### More budget -/

/-- Whether a computation ended because its budget was spent. -/
def RanOut (result : Except Fault α) : Prop :=
  result = .error .recursionLimit

instance (result : Except Fault α) : Decidable (RanOut result) :=
  match result with
  | .error .recursionLimit => isTrue rfl
  | .error (.language _) => isFalse (by simp [RanOut])
  | .error (.numeralTooLong _) => isFalse (by simp [RanOut])
  | .error .numberTooLong => isFalse (by simp [RanOut])
  | .error .exhausted => isFalse (by simp [RanOut])
  | .ok _ => isFalse (by simp [RanOut])

@[simp] theorem not_ranOut_ok (a : α) : ¬ RanOut (.ok a : Except Fault α) := by
  simp [RanOut]

@[simp] theorem ranOut_error_iff {fault : Fault} :
    RanOut (.error fault : Except Fault α) ↔ fault = .recursionLimit := by
  simp [RanOut]

/-- `y` gives what `x` gives, wherever `x` does not run out of its budget. -/
def Prolongs (y x : ExceptT Fault (StateM S) α) : Prop :=
  ∀ s, ¬ RanOut (outcome x s).1 → outcome y s = outcome x s

theorem Prolongs.refl (x : ExceptT Fault (StateM S) α) : Prolongs x x :=
  fun _ _ => rfl

theorem prolongs_ranOut (y : ExceptT Fault (StateM S) α) :
    Prolongs y (throw .recursionLimit) := by
  intro s h
  exact absurd rfl h

theorem Prolongs.bind {x y : ExceptT Fault (StateM S) α}
    {f g : α → ExceptT Fault (StateM S) β} (hx : Prolongs y x) (hf : ∀ a, Prolongs (g a) (f a)) :
    Prolongs (y >>= g) (x >>= f) := by
  intro s h
  have hxs := hx s
  rw [outcome_bind] at h ⊢
  rw [outcome_bind]
  rcases hrun : outcome x s with ⟨fault | a, s'⟩
  · rw [hrun] at h hxs
    rw [hxs (by simpa using h)]
  · rw [hrun] at h hxs
    rw [hxs (by simp)]
    exact hf a s' h

theorem Prolongs.ite {x y x' y' : ExceptT Fault (StateM S) α} {c : Prop} [Decidable c]
    (h : Prolongs y x) (h' : Prolongs y' x') :
    Prolongs (if c then y else y') (if c then x else x') := by
  split
  · exact h
  · exact h'

end LetLang
