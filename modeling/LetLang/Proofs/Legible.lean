import LetLang.Proofs.Display
import LetLang.Proofs.Inside
/-!
# Values that can be written

The bodies of closures come from texts, and the numerals in a text are short enough to be written.
So a closure can always be written, and only a number that was computed may be too long. Evaluation
keeps this true of every value in the store. It never meets plain data then, and a complaint is
without words only if it is about a number that is too long.
-/
namespace LetLang

/-! ### Stores -/

/-- The value is no closure, or the expression in it can be written. -/
def Value.Legible : Value → Prop
  | .closure _ body _ => body.Writable
  | _ => True

def Scope.Legible (scope : Scope) : Prop :=
  ∀ name value, scope.get? name = some value → value.Legible

def Store.Legible (store : Store) : Prop :=
  ∀ id scope, store.get? id = some scope → scope.Legible

/-! ### Evaluation -/

theorem Expr.hereditary_writable : Hereditary Writable := by
  intro expr h child hchild
  cases expr with
  | unit | int | bool | ident | datum => simp [children] at hchild
  | unary | define | fn | binary | letIn | ifThen | apply | ifThenElse =>
    simp only [children, List.mem_cons, List.not_mem_nil, or_false] at hchild
    simp only [Writable] at h
    grind

theorem Value.legible_iff {value : Value} : value.Legible ↔ value.Inside Expr.Writable := by
  cases value <;> rfl

theorem Store.legible_iff {store : Store} : store.Legible ↔ store.Inside Expr.Writable := by
  simp only [Legible, Scope.Legible, Value.legible_iff, Inside, Scope.Inside]

theorem Store.legible_start : Program.start.Legible :=
  Store.legible_iff.2 Store.inside_start

/-- What an evaluation leaves is legible if what it starts from is, and so is the value that it
gives. -/
theorem legible_of_outcome (budget : Nat) {expr : Expr} (scope : ScopeId) {store : Store}
    (h : expr.Writable) (hstore : store.Legible) :
    (outcome (evaluate budget expr scope) store).2.Legible ∧
      ∀ value store', outcome (evaluate budget expr scope) store = (.ok value, store') →
        value.Legible := by
  have hkeeps := evaluate_keeps Expr.hereditary_writable budget h scope
  rw [Store.legible_iff] at hstore ⊢
  exact ⟨hkeeps.store hstore, fun value store' heq => Value.legible_iff.2 (hkeeps.value hstore heq)⟩

/-! ### Visits -/

structure Visit.Legible (visit : Visit) : Prop where
  expr : visit.expr.Writable
  store : visit.store.Legible

theorem Visit.Reaches.legible {visit reached : Visit} (hreaches : visit.Reaches reached)
    (h : visit.Legible) : reached.Legible := by
  have hinside := hreaches.inside Expr.hereditary_writable ⟨h.expr, Store.legible_iff.1 h.store⟩
  exact ⟨hinside.expr, Store.legible_iff.2 hinside.store⟩

/-! ### Complaints -/

/-- The complaint is about legible values, and not about plain data. -/
structure Complaint.Legible (complaint : Complaint) : Prop where
  values : ∀ value ∈ complaint.values, value.Legible
  not_datum : ∀ found, complaint ≠ .datum found

theorem Visit.Raises.legible {visit : Visit} {complaint : Complaint}
    (hraises : visit.Raises complaint) (h : visit.Legible) : complaint.Legible := by
  have hinside := hraises.inside Expr.hereditary_writable ⟨h.expr, Store.legible_iff.1 h.store⟩
  exact ⟨fun value hvalue => Value.legible_iff.2 (hinside.values value hvalue), hinside.datum⟩

/-- Of the legible values, only numbers that are too long cannot be written. -/
theorem Value.Legible.text?_eq_none_iff {value : Value} (h : value.Legible) :
    value.text? = none ↔ ∃ n, value = .int n ∧ Numeral.TooLong n := by
  cases value with
  | int n => simp [text?, Numeral.text?_eq_none_iff]
  | closure param body captured =>
    obtain ⟨text, htext⟩ := Option.isSome_iff_exists.1 h.isSome_render?
    simp [text?, htext]
  | unit | bool => simp [text?]

/-- A complaint has no words only if it is about a value that cannot be written. -/
theorem Complaint.error?_eq_none_iff_text? {complaint : Complaint}
    (h : ∀ found, complaint ≠ .datum found) :
    complaint.error? = none ↔ ∃ value ∈ complaint.values, value.text? = none := by
  cases complaint with
  | datum found => exact absurd rfl (h found)
  | operands op left right =>
    simp only [error?, values, Value.describe?, List.exists_mem_cons_iff]
    cases left.text? <;> cases right.text? <;> simp
  | unbound | dividend | operand | condition | callee =>
    simp [error?, values, Value.describe?, Value.text?]

theorem Complaint.Legible.error?_eq_none_iff {complaint : Complaint} (h : complaint.Legible) :
    complaint.error? = none ↔ ∃ n, .int n ∈ complaint.values ∧ Numeral.TooLong n := by
  rw [error?_eq_none_iff_text? h.not_datum]
  constructor
  · rintro ⟨value, hmem, hnone⟩
    obtain ⟨n, rfl, hlong⟩ := (h.values value hmem).text?_eq_none_iff.1 hnone
    exact ⟨n, hmem, hlong⟩
  · rintro ⟨n, hmem, hlong⟩
    exact ⟨.int n, hmem, (h.values _ hmem).text?_eq_none_iff.2 ⟨n, rfl, hlong⟩⟩

end LetLang
