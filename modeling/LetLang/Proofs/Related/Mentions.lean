import LetLang.Proofs.Related.Evaluation
/-!
# Unmentioned bindings

An expression depends on the names that occur in it as identifiers, and on nothing else of the
scope that it is evaluated in. Two moments, of one session or of two, that resolve these names to
related values cannot be told apart by it: not by its value or its fault, and not by what it leaves
behind.
-/
namespace LetLang

open Evaluating

/-- The names that occur as identifiers in an expression, function bodies included. -/
def Expr.idents : Expr → List String
  | unit | int _ | bool _ | datum _ => []
  | ident name => [name]
  | binary _ left right => left.idents ++ right.idents
  | unary _ operand => operand.idents
  | define _ bound => bound.idents
  | letIn _ bound body => bound.idents ++ body.idents
  | ifThen cond yes => cond.idents ++ yes.idents
  | ifThenElse cond yes no => cond.idents ++ yes.idents ++ no.idents
  | fn _ body => body.idents
  | apply callee argument => callee.idents ++ argument.idents

/-- Looks at the identifiers of an expression only. -/
def mentioned (expr : Expr) (name : String) : Prop :=
  name ∈ expr.idents

theorem covers_mentioned : Covers mentioned where
  ident name := List.mem_singleton_self name
  part {whole part name} hpart hname := by
    cases whole <;> simp only [Expr.parts, List.mem_cons, List.not_mem_nil, or_false] at hpart <;>
      rcases hpart with rfl | rfl | rfl <;> simp_all [mentioned, Expr.idents]

/-! ### More budget -/

/-- The changes of a sequence, with more budget for its parts. -/
theorem append_followed_prolongs {α β : Type} {x y : Evaluating α} {f : α → Evaluating β}
    {store : Store} {early early' : List Change} {next next' : α → Store → List Change}
    (hxy : Prolongs y x) (hran : ¬ RanOut (outcome (x >>= f) store).1)
    (hearly : ¬ RanOut (outcome x store).1 → early' = early)
    (hnext : ∀ a store', ¬ RanOut (outcome (f a) store').1 → next' a store' = next a store') :
    early' ++ followed y store next' = early ++ followed x store next := by
  have hx : ¬ RanOut (outcome x store).1 :=
    fun h => hran (outcome_bind_eq_error.2 (.inl h))
  rw [hearly hx, followed, followed, hxy store hx]
  rcases hrun : outcome x store with ⟨fault | a, store'⟩
  · rfl
  · rw [outcome_bind_of_ok hrun] at hran
    exact congrArg _ (hnext a store' hran)

/-- An evaluation that does not run out of its budget makes the same changes with every larger
one. -/
theorem changes_prolongs {budget larger : Nat} (h : budget ≤ larger) (expr : Expr)
    (scope : ScopeId) (store : Store)
    (hran : ¬ RanOut (outcome (evaluate budget expr scope) store).1) :
    changes larger expr scope store = changes budget expr scope store := by
  induction budget generalizing larger expr scope store with
  | zero => exact absurd rfl hran
  | succ budget ih =>
    obtain ⟨larger, rfl⟩ : ∃ n, larger = n + 1 := ⟨larger - 1, by omega⟩
    have hle := Nat.le_of_succ_le_succ h
    have ih := fun expr scope store => ih hle expr scope store
    have hmore := fun expr => evaluate_prolongs hle expr scope
    cases expr with
    | unit | int | bool | ident | fn | datum => rfl
    | binary op left right =>
      apply append_followed_prolongs (hmore left) hran (ih left scope store)
      intro _ store' h
      exact ih right scope store' fun h' => h (outcome_bind_eq_error.2 (.inl h'))
    | unary op operand =>
      exact ih operand scope store fun h => hran (outcome_bind_eq_error.2 (.inl h))
    | define name bound =>
      exact append_followed_prolongs (hmore bound) hran (ih bound scope store) fun _ _ _ => rfl
    | letIn name bound body =>
      apply append_followed_prolongs (hmore bound) hran (ih bound scope store)
      intro value store' h
      exact congrArg _ (ih body scope (store'.bind scope name value) h)
    | ifThen cond yes =>
      apply append_followed_prolongs (hmore cond) hran (ih cond scope store)
      intro value store' h
      rcases value with _ | _ | (_ | _) | _
      case bool.true => exact ih yes scope store' h
      all_goals rfl
    | ifThenElse cond yes no =>
      apply append_followed_prolongs (hmore cond) hran (ih cond scope store)
      intro value store' h
      rcases value with _ | _ | (_ | _) | _
      case bool.true => exact ih yes scope store' h
      case bool.false => exact ih no scope store' h
      all_goals rfl
    | apply callee argument =>
      apply append_followed_prolongs (hmore callee) hran (ih callee scope store)
      intro value store' h
      cases value with
      | closure param body captured =>
        apply append_followed_prolongs (hmore argument) h (ih argument scope store')
        intro value store'' h
        exact congrArg _ (ih body _ _ h)
      | unit | int | bool => rfl

/-! ### Two moments -/

/-- The same budget serves both evaluations. -/
theorem mentioned_same {store store' : Store} (hstore : Program.Reached store)
    (hstore' : Program.Reached store') {expr : Expr}
    (hagree : ∀ name ∈ expr.idents, RelatedBinding mentioned store store'
      (store.lookup? Program.root name) (store'.lookup? Program.root name)) (budget : Nat) :
    let first := outcome (evaluate budget expr Program.root) store
    let second := outcome (evaluate budget expr Program.root) store'
    let bound := boundNames Program.root (changes budget expr Program.root store)
    SameResult (Related mentioned first.2 second.2) first.1 second.1 ∧
    bound = boundNames Program.root (changes budget expr Program.root store') ∧
    ∀ name, name ∈ expr.idents ∨ name ∈ bound → RelatedBinding mentioned first.2 second.2
      (first.2.lookup? Program.root name) (second.2.lookup? Program.root name) := by
  obtain ⟨world, rfl, hopen⟩ := hstore.exists_world
  obtain ⟨world', rfl, hopen'⟩ := hstore'.exists_world
  intro first second bound
  have htogether := evaluate_together covers_mentioned budget expr hopen hopen' hagree
    fun _ h => h
  refine ⟨htogether.sameResult, ?_⟩
  obtain ⟨later, later', ⟨_, hlater⟩, ⟨_, hlater'⟩, hbound, hafter, -⟩ := htogether
  refine ⟨hbound, fun name hname => ?_⟩
  have hname := hafter name hname
  rw [← show later.store = first.2 from hlater, ← show later'.store = second.2 from hlater']
  exact hname

/-- In two moments, of one session or of two, that resolve every identifier of an expression to
related values or both to nothing, the expression gives the same fault, or related values. However
it ends, the same names are bound in the root scope, and these and all its identifiers are resolved
to related values again, or both to nothing. The budgets may differ if neither runs out. -/
theorem unmentioned_bindings_do_not_matter {store store' : Store}
    (hstore : Program.Reached store) (hstore' : Program.Reached store') {expr : Expr}
    (hagree : ∀ name ∈ expr.idents, RelatedBinding mentioned store store'
      (store.lookup? Program.root name) (store'.lookup? Program.root name))
    (budget budget' : Nat) :
    let first := outcome (evaluate budget expr Program.root) store
    let second := outcome (evaluate budget' expr Program.root) store'
    let bound := boundNames Program.root (changes budget expr Program.root store)
    budget = budget' ∨ ¬ RanOut first.1 ∧ ¬ RanOut second.1 →
    SameResult (Related mentioned first.2 second.2) first.1 second.1 ∧
    bound = boundNames Program.root (changes budget' expr Program.root store') ∧
    ∀ name, name ∈ expr.idents ∨ name ∈ bound → RelatedBinding mentioned first.2 second.2
      (first.2.lookup? Program.root name) (second.2.lookup? Program.root name) := by
  rintro first second bound (rfl | ⟨h, h'⟩)
  · exact mentioned_same hstore hstore' hagree budget
  · have hle := Nat.le_max_left budget budget'
    have hle' := Nat.le_max_right budget budget'
    have hsame := mentioned_same hstore hstore' hagree (max budget budget')
    rw [evaluate_prolongs hle expr _ _ h, evaluate_prolongs hle' expr _ _ h',
      changes_prolongs hle expr _ _ h, changes_prolongs hle' expr _ _ h'] at hsame
    exact hsame

/-- Two sessions that differ in what else they have bound, also when the closure `g` was made. -/
theorem unmentioned_bindings_do_not_matter_two_sessions :
    let texts := ["let k = 1", "let g = |y| => y + k"]
    let texts' := ["let n = true", "let k = 1", "let g = |y| => y + k", "let k = 7"]
    let body := Expr.binary .add (.ident "y") (.ident "k")
    let g := Value.closure (some "y") body 1
    let made := [Change.bind 0 "k" (.int 1), .capture 0 (some "y") body, .bind 0 "g" g]
    let made' := .bind 0 "n" (.bool true) :: made ++ [.bind 0 "k" (.int 7)]
    let store := Program.start.after made
    let store' := Program.start.after made'
    let expr := Expr.letIn "h" (.fn none (.apply (.ident "g") (.int 3))) (.ident "h")
    let first := outcome (evaluate 9 expr 0) store
    let second := outcome (evaluate 5 expr 0) store'
    made <+: Program.history ⟨99, 99⟩ Program.root texts Program.start ∧
      made' <+: Program.history ⟨99, 99⟩ Program.root texts' Program.start ∧
      first.1.isOk = true ∧ SameResult (Related mentioned first.2 second.2) first.1 second.1 ∧
      RelatedBinding mentioned first.2 second.2 (first.2.lookup? 0 "h")
        (second.2.lookup? 0 "h") := by
  intro texts texts' body g made made' store store' expr first second
  have hmade : made <+: Program.history ⟨99, 99⟩ Program.root texts Program.start := by
    decide +kernel
  have hmade' : made' <+: Program.history ⟨99, 99⟩ Program.root texts' Program.start := by
    decide +kernel
  have hstore : Program.Reached store := ⟨⟨99, 99⟩, texts, made, hmade, rfl⟩
  have hstore' : Program.Reached store' := ⟨⟨99, 99⟩, texts', made', hmade', rfl⟩
  have hg : Related mentioned store store' g g := by
    refine .closure (some "y") body fun name hname => ?_
    simp only [mentioned, body, Expr.idents, List.cons_append, List.nil_append, List.mem_cons,
      List.not_mem_nil, or_false] at hname
    rcases hname with rfl | rfl
    · rw [show store.lookup? 1 "y" = none by decide +kernel,
        show store'.lookup? 1 "y" = none by decide +kernel]
      exact .unbound
    · rw [show store.lookup? 1 "k" = some (.int 1) by decide +kernel,
        show store'.lookup? 1 "k" = some (.int 1) by decide +kernel]
      exact .bound (.int 1)
  have hagree : ∀ name ∈ expr.idents, RelatedBinding mentioned store store'
      (store.lookup? 0 name) (store'.lookup? 0 name) := by
    intro name hname
    simp only [expr, Expr.idents, List.cons_append, List.nil_append, List.mem_cons,
      List.not_mem_nil, or_false] at hname
    rcases hname with rfl | rfl
    · rw [show store.lookup? 0 "g" = some g by decide +kernel,
        show store'.lookup? 0 "g" = some g by decide +kernel]
      exact .bound hg
    · rw [show store.lookup? 0 "h" = none by decide +kernel,
        show store'.lookup? 0 "h" = none by decide +kernel]
      exact .unbound
  have h := unmentioned_bindings_do_not_matter hstore hstore' hagree 9 5
    (.inr ⟨by decide +kernel, by decide +kernel⟩)
  exact ⟨hmade, hmade', by decide +kernel, h.1, h.2.2 "h" (.inl (by decide +kernel))⟩

end LetLang
