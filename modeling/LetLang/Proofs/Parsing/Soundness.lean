import LetLang.Proofs.Grammar.Greedy
import LetLang.Proofs.Stream
/-!
# What is read is derived

A reader that succeeds has taken a phrase, derived greedily, and left a text that does not go on
with it.
-/
namespace LetLang.Parser

open TokenStream

variable {α : Type}

/-- Whatever the reader gives, it gives for tokens that it has taken, in the relation `R` to it,
and before a text that does not go on with them. -/
def Sound (x : Reading α) (R : List Token → α → Set Kind → Prop) : Prop :=
  ∀ {s a s'}, outcome x s = (.ok a, s') →
    ∃ p opens, R p a opens ∧ s.pending = p ++ s'.pending ∧ Ended opens s'.pending

theorem identifier_sound : Sound identifier Name := by
  intro s name s' h
  obtain ⟨token, s₁, hexpect, h⟩ := outcome_bind_eq_ok.1 h
  cases h
  obtain ⟨hkind, hpending⟩ := pending_of_expect_singleton hexpect (by decide)
  exact ⟨[token], ∅, .mk hkind, hpending, ended_empty⟩

theorem pending_of_nextIs_same {kinds : List Kind} {s s' : TokenStream} {answer : Bool}
    (h : outcome (nextIs kinds) s = (.ok answer, s')) : s'.pending = s.pending := by
  obtain ⟨token, rest, hpending, hpending', -⟩ := pending_of_nextIs h
  rw [hpending, hpending']

theorem pending_of_nextIs_not {kinds : List Kind} {s s' : TokenStream} {answer : Bool}
    (h : outcome (return !(← nextIs kinds)) s = (.ok answer, s')) : s'.pending = s.pending := by
  obtain ⟨_, s₁, hnext, h⟩ := outcome_bind_eq_ok.1 h
  cases h
  obtain ⟨token, rest, hpending, hpending', -⟩ := pending_of_nextIs hnext
  rw [hpending, hpending']

/-! ### Loops -/

section Loops

variable {R : List Token → α → Set Kind → Prop} {item : Reading α} {close : Kind}

/-- After a first item: nothing, or a comma and items, up to the closing token. -/
theorem separated_sound (hitem : Sound item R) {rounds : List Token} {s s' : TokenStream}
    {items : List α} (hrounds : s.pending.length ≤ rounds.length) (hclose : close ≠ .eof)
    (h : outcome (separated close item rounds) s = (.ok items, s')) :
    ∃ token rest, s'.pending = token :: rest ∧ token.kind = close ∧
      ((items = [] ∧ s.pending = s'.pending) ∨
        ∃ comma q, comma.kind = .comma ∧ s.pending = comma :: (q ++ s'.pending) ∧
          Items R close q items) := by
  induction rounds generalizing s items with
  | nil =>
    rw [separated.eq_def] at h
    obtain ⟨answer, s₁, hnext, -⟩ := outcome_bind_eq_ok.1 h
    obtain ⟨token, rest, hpending, -⟩ := pending_of_nextIs hnext
    simp [hpending] at hrounds
  | cons _ rounds ih =>
    rw [separated] at h
    obtain ⟨answer, s₁, hnext, h⟩ := outcome_bind_eq_ok.1 h
    obtain ⟨token, rest, hpending, hpending₁, rfl⟩ := pending_of_nextIs hnext
    by_cases hkind : token.kind = close
    · simp only [hkind, List.mem_singleton, decide_true, if_true] at h
      cases h
      exact ⟨token, rest, hpending₁, hkind, .inl ⟨rfl, hpending.trans hpending₁.symm⟩⟩
    · simp only [hkind, List.mem_singleton, decide_false, Bool.false_eq_true, if_false] at h
      obtain ⟨comma, s₂, hexpect, h⟩ := outcome_bind_eq_ok.1 h
      obtain ⟨first, s₃, hfirst, h⟩ := outcome_bind_eq_ok.1 h
      obtain ⟨others, s₄, hothers, h⟩ := outcome_bind_eq_ok.1 h
      cases h
      obtain ⟨hmem, hpending₂⟩ := pending_of_expect hexpect (by simp [hclose.symm])
      obtain ⟨p, opens, hp, hpending₃, hended⟩ := hitem hfirst
      rw [hpending₁, List.cons.injEq] at hpending₂
      obtain ⟨rfl, rfl⟩ := hpending₂
      have hcomma : token.kind = .comma := by simpa [hkind] using hmem
      have hlength : s₃.pending.length ≤ rounds.length := by
        rw [hpending, hpending₃] at hrounds
        simp only [List.length_cons, List.length_append] at hrounds
        omega
      obtain ⟨last, rest, hlast, hlastKind, hothers⟩ := ih hlength hothers
      refine ⟨last, rest, hlast, hlastKind, .inr ?_⟩
      rcases hothers with ⟨rfl, hpending₄⟩ | ⟨comma', q, hcomma', hpending₄, hitems⟩
      · rw [hpending₄, hlast] at hended
        refine ⟨token, p, hcomma, by rw [hpending, hpending₃, hpending₄], ?_⟩
        exact .single hp (hlastKind ▸ hended)
      · rw [hpending₄] at hended
        refine ⟨token, p ++ comma' :: q, hcomma, by simp [hpending, hpending₃, hpending₄], ?_⟩
        exact .cons hp hcomma' (hcomma' ▸ hended) hitems

theorem enclosed_sound (hitem : Sound item R) {present : Reading Bool}
    (hpresent : ∀ {s answer s'}, outcome present s = (.ok answer, s') → s'.pending = s.pending)
    (hclose : close ≠ .eof) {s s' : TokenStream} {items : List α}
    (h : outcome (enclosed close present item) s = (.ok items, s')) :
    ∃ p, Enclosed R close p items ∧ s.pending = p ++ s'.pending := by
  obtain ⟨answer, s₁, hanswer, h⟩ := outcome_bind_eq_ok.1 h
  rw [← hpresent hanswer]
  cases answer with
  | false =>
    cases h
    exact ⟨[], .none, rfl⟩
  | true =>
    rw [if_pos rfl] at h
    obtain ⟨first, s₂, hfirst, h⟩ := outcome_bind_eq_ok.1 h
    obtain ⟨s₃, _, hget, h⟩ := outcome_bind_eq_ok.1 h
    cases hget
    obtain ⟨others, s₄, hothers, h⟩ := outcome_bind_eq_ok.1 h
    cases h
    obtain ⟨p, opens, hp, hpending, hended⟩ := hitem hfirst
    obtain ⟨last, rest, hlast, hlastKind, hothers⟩ :=
      separated_sound hitem (Nat.le_refl _) hclose hothers
    rcases hothers with ⟨rfl, hpending'⟩ | ⟨comma, q, hcomma, hpending', hitems⟩
    · rw [hpending', hlast] at hended
      refine ⟨p, .some (.single hp (hlastKind ▸ hended)), by rw [hpending, hpending']⟩
    · rw [hpending'] at hended
      refine ⟨p ++ comma :: q, .some (.cons hp hcomma (hcomma ▸ hended) hitems), ?_⟩
      simp [hpending, hpending']

end Loops

section Loops

variable {R : List Token → Expr → Set Kind → Prop}

theorem operations_sound {operand : Reading Expr} (hoperand : Sound operand R) {level : Level}
    {rounds : List Token} {s s' : TokenStream} {left e : Expr} {opens : Set Kind}
    (hrounds : s.pending.length ≤ rounds.length) (hended : Ended opens s.pending)
    (h : outcome (operations level operand rounds left) s = (.ok e, s')) :
    ∃ q opens', Operations R level left opens q e opens' ∧ s.pending = q ++ s'.pending ∧
      Ended opens' s'.pending := by
  induction rounds generalizing s left opens with
  | nil =>
    rw [operations] at h
    obtain ⟨token, s₁, hpeek, -⟩ := outcome_bind_eq_ok.1 h
    obtain ⟨rest, hpending, -⟩ := pending_of_peek hpeek
    simp [hpending] at hrounds
  | cons _ rounds ih =>
    rw [operations] at h
    obtain ⟨token, s₁, hpeek, h⟩ := outcome_bind_eq_ok.1 h
    obtain ⟨rest, hpending, hpending₁⟩ := pending_of_peek hpeek
    rw [hpending] at hended
    cases hop : level.operator? token.kind with
    | none =>
      rw [hop] at h
      cases h
      refine ⟨[], _, .done, by simp [hpending, hpending₁], ?_⟩
      rw [hpending₁, ended_union]
      exact ⟨by simp [Ended, hop], hended⟩
    | some op =>
      rw [hop] at h
      obtain ⟨operator, s₂, hadvance, h⟩ := outcome_bind_eq_ok.1 h
      obtain ⟨right, s₃, hright, h⟩ := outcome_bind_eq_ok.1 h
      obtain ⟨rfl, rfl⟩ := pending_of_advance hadvance hpending₁ (ne_eof_of_operator? hop)
      obtain ⟨p, opens₁, hp, hpending₂, hended₁⟩ := hoperand hright
      have hlength : s₃.pending.length ≤ rounds.length := by
        rw [hpending, hpending₂] at hrounds
        simp only [List.length_cons, List.length_append] at hrounds
        omega
      obtain ⟨q, opens', hrest, hpending₃, hended'⟩ := ih hlength hended₁ h
      refine ⟨operator :: (p ++ q), opens', .more hop hended hp hrest, ?_, hended'⟩
      simp [hpending, hpending₂, hpending₃]

theorem calls_sound {argument : Reading Expr} (hargument : Sound argument R)
    {rounds : List Token} {s s' : TokenStream} {callee e : Expr}
    (hrounds : s.pending.length ≤ rounds.length)
    (h : outcome (calls argument rounds callee) s = (.ok e, s')) :
    ∃ q, Calls R callee q e ∧ s.pending = q ++ s'.pending ∧ Ended {.lparen} s'.pending := by
  induction rounds generalizing s callee with
  | nil =>
    rw [calls] at h
    obtain ⟨answer, s₁, hnext, -⟩ := outcome_bind_eq_ok.1 h
    obtain ⟨token, rest, hpending, -⟩ := pending_of_nextIs hnext
    simp [hpending] at hrounds
  | cons _ rounds ih =>
    rw [calls] at h
    obtain ⟨answer, s₁, hnext, h⟩ := outcome_bind_eq_ok.1 h
    obtain ⟨token, rest, hpending, hpending₁, rfl⟩ := pending_of_nextIs hnext
    by_cases hkind : token.kind = .lparen
    · simp only [hkind, List.mem_singleton, decide_true, if_true] at h
      obtain ⟨left, s₂, hleft, h⟩ := outcome_bind_eq_ok.1 h
      obtain ⟨arguments, s₃, harguments, h⟩ := outcome_bind_eq_ok.1 h
      obtain ⟨right, s₄, hright, h⟩ := outcome_bind_eq_ok.1 h
      obtain ⟨hleftKind, hpending₂⟩ := pending_of_expect_singleton hleft (by decide)
      obtain ⟨p, hp, hpending₃⟩ := enclosed_sound hargument pending_of_nextIs_not (by decide)
        harguments
      obtain ⟨hrightKind, hpending₄⟩ := pending_of_expect_singleton hright (by decide)
      rw [hpending₁] at hpending₂
      have hlength : s₄.pending.length ≤ rounds.length := by
        rw [hpending, hpending₂, hpending₃, hpending₄] at hrounds
        simp only [List.length_cons, List.length_append] at hrounds
        omega
      obtain ⟨q, hrest, hpending₅, hended⟩ := ih hlength h
      refine ⟨left :: (p ++ right :: q), ?_, ?_, hended⟩
      · exact .more hleftKind hp hrightKind hrest
      · simp [hpending, hpending₂, hpending₃, hpending₄, hpending₅]
    · simp only [hkind, List.mem_singleton, decide_false, Bool.false_eq_true, if_false] at h
      cases h
      exact ⟨[], .done, by simp [hpending, hpending₁], by simpa [hpending₁, Ended] using hkind⟩

end Loops

/-! ### Productions -/

section Productions

variable {budget : Nat}
  (ih : ∀ production, Sound (read budget production) (Greedy budget production))

include ih

theorem expr_sound : Sound (step (read budget) .expr) (GreedyStep (Greedy budget) .expr) := by
  intro s e s' h
  obtain ⟨token, s₁, hpeek, h⟩ := outcome_bind_eq_ok.1 h
  obtain ⟨rest, hpending, hpending₁⟩ := pending_of_peek hpeek
  rw [hpending, ← hpending₁]
  split at h
  · obtain ⟨p, opens, hp, htaken, hended⟩ := ih _ h
    exact ⟨p, opens, .exprLet hp, htaken, hended⟩
  · obtain ⟨p, opens, hp, htaken, hended⟩ := ih _ h
    exact ⟨p, opens, .exprIf hp, htaken, hended⟩
  · obtain ⟨p, opens, hp, htaken, hended⟩ := ih _ h
    exact ⟨p, opens, .exprFn hp, htaken, hended⟩
  · obtain ⟨p, opens, hp, htaken, hended⟩ := ih _ h
    exact ⟨p, opens, .exprLogic hp, htaken, hended⟩

theorem letExpr_sound :
    Sound (step (read budget) .letExpr) (GreedyStep (Greedy budget) .letExpr) := by
  intro s e s' h
  obtain ⟨word, s₁, hword, h⟩ := outcome_bind_eq_ok.1 h
  obtain ⟨_, s₂, hname, h⟩ := outcome_bind_eq_ok.1 h
  obtain ⟨eq, s₃, heq, h⟩ := outcome_bind_eq_ok.1 h
  obtain ⟨bound, s₄, hbound, h⟩ := outcome_bind_eq_ok.1 h
  obtain ⟨answer, s₅, hnext, h⟩ := outcome_bind_eq_ok.1 h
  obtain ⟨hwordKind, hpending₁⟩ := pending_of_expect_singleton hword (by decide)
  obtain ⟨_, _, ⟨hnameKind⟩, hpending₂, -⟩ := identifier_sound hname
  obtain ⟨heqKind, hpending₃⟩ := pending_of_expect_singleton heq (by decide)
  obtain ⟨p, opens, hp, hpending₄, hended⟩ := ih _ hbound
  obtain ⟨token, rest, hpending₅, hpending₆, rfl⟩ := pending_of_nextIs hnext
  by_cases hkind : token.kind = .inWord
  · simp only [hkind, List.mem_singleton, decide_true, if_true] at h
    obtain ⟨inWord, s₇, hadvance, h⟩ := outcome_bind_eq_ok.1 h
    obtain ⟨body, s₈, hbody, h⟩ := outcome_bind_eq_ok.1 h
    cases h
    obtain ⟨rfl, rfl⟩ := pending_of_advance hadvance hpending₆ (by simp [hkind])
    obtain ⟨q, opens', hq, hpending₇, hended'⟩ := ih _ hbody
    rw [hpending₅] at hended
    refine ⟨_, opens', .letIn hwordKind hnameKind heqKind hp (hkind ▸ hended) hkind hq, ?_,
      hended'⟩
    simp [hpending₁, hpending₂, hpending₃, hpending₄, hpending₅, hpending₇]
  · simp only [hkind, List.mem_singleton, decide_false, Bool.false_eq_true, if_false] at h
    cases h
    refine ⟨_, _, .define hwordKind hnameKind heqKind hp, ?_, ?_⟩
    · simp [hpending₁, hpending₂, hpending₃, hpending₄, hpending₅, hpending₆]
    · rw [hpending₆, ended_insert, ← hpending₅]
      exact ⟨hkind, hended⟩

theorem ifExpr_sound :
    Sound (step (read budget) .ifExpr) (GreedyStep (Greedy budget) .ifExpr) := by
  intro s e s' h
  obtain ⟨word, s₁, hword, h⟩ := outcome_bind_eq_ok.1 h
  obtain ⟨cond, s₂, hcond, h⟩ := outcome_bind_eq_ok.1 h
  obtain ⟨thenWord, s₃, hthen, h⟩ := outcome_bind_eq_ok.1 h
  obtain ⟨yes, s₄, hyes, h⟩ := outcome_bind_eq_ok.1 h
  obtain ⟨answer, s₅, hnext, h⟩ := outcome_bind_eq_ok.1 h
  obtain ⟨hwordKind, hpending₁⟩ := pending_of_expect_singleton hword (by decide)
  obtain ⟨p, opens, hp, hpending₂, hended⟩ := ih _ hcond
  obtain ⟨hthenKind, hpending₃⟩ := pending_of_expect_singleton hthen (by decide)
  obtain ⟨q, opens', hq, hpending₄, hended'⟩ := ih _ hyes
  obtain ⟨token, rest, hpending₅, hpending₆, rfl⟩ := pending_of_nextIs hnext
  rw [hpending₃] at hended
  by_cases hkind : token.kind = .elseWord
  · simp only [hkind, List.mem_singleton, decide_true, if_true] at h
    obtain ⟨elseWord, s₇, hadvance, h⟩ := outcome_bind_eq_ok.1 h
    obtain ⟨no, s₈, hno, h⟩ := outcome_bind_eq_ok.1 h
    cases h
    obtain ⟨rfl, rfl⟩ := pending_of_advance hadvance hpending₆ (by simp [hkind])
    obtain ⟨r, opens'', hr, hpending₇, hended''⟩ := ih _ hno
    rw [hpending₅] at hended'
    refine ⟨_, opens'', .ifThenElse hwordKind hp (hthenKind ▸ hended) hthenKind hq
      (hkind ▸ hended') hkind hr, ?_, hended''⟩
    simp [hpending₁, hpending₂, hpending₃, hpending₄, hpending₅, hpending₇]
  · simp only [hkind, List.mem_singleton, decide_false, Bool.false_eq_true, if_false] at h
    cases h
    refine ⟨_, _, .ifThen hwordKind hp (hthenKind ▸ hended) hthenKind hq, ?_, ?_⟩
    · simp [hpending₁, hpending₂, hpending₃, hpending₄, hpending₅, hpending₆]
    · rw [hpending₆, ended_insert, ← hpending₅]
      exact ⟨hkind, hended'⟩

theorem fnExpr_sound :
    Sound (step (read budget) .fnExpr) (GreedyStep (Greedy budget) .fnExpr) := by
  intro s e s' h
  obtain ⟨left, s₁, hleft, h⟩ := outcome_bind_eq_ok.1 h
  obtain ⟨params, s₂, hparams, h⟩ := outcome_bind_eq_ok.1 h
  obtain ⟨right, s₃, hright, h⟩ := outcome_bind_eq_ok.1 h
  obtain ⟨arrow, s₄, harrow, h⟩ := outcome_bind_eq_ok.1 h
  obtain ⟨body, s₅, hbody, h⟩ := outcome_bind_eq_ok.1 h
  cases h
  obtain ⟨hleftKind, hpending₁⟩ := pending_of_expect_singleton hleft (by decide)
  obtain ⟨p, hp, hpending₂⟩ := enclosed_sound identifier_sound pending_of_nextIs_same (by decide)
    hparams
  obtain ⟨hrightKind, hpending₃⟩ := pending_of_expect_singleton hright (by decide)
  obtain ⟨harrowKind, hpending₄⟩ := pending_of_expect_singleton harrow (by decide)
  obtain ⟨q, opens, hq, hpending₅, hended⟩ := ih _ hbody
  refine ⟨_, opens, .fn hleftKind hp hrightKind harrowKind hq, ?_, hended⟩
  simp [hpending₁, hpending₂, hpending₃, hpending₄, hpending₅]

theorem infixed_sound (level : Level) :
    Sound (step (read budget) (.infixed level)) (GreedyStep (Greedy budget) (.infixed level)) := by
  intro s e s' h
  obtain ⟨left, s₁, hleft, h⟩ := outcome_bind_eq_ok.1 h
  obtain ⟨_, _, hget, h⟩ := outcome_bind_eq_ok.1 h
  cases hget
  obtain ⟨p, opens, hp, hpending₁, hended⟩ := ih _ hleft
  obtain ⟨q, opens', hq, hpending₂, hended'⟩ :=
    operations_sound (ih _) (Nat.le_refl _) hended h
  exact ⟨p ++ q, opens', .infixed hp hq, by simp [hpending₁, hpending₂], hended'⟩

theorem unary_sound : Sound (step (read budget) .unary) (GreedyStep (Greedy budget) .unary) := by
  intro s e s' h
  obtain ⟨token, s₁, hpeek, h⟩ := outcome_bind_eq_ok.1 h
  obtain ⟨rest, hpending, hpending₁⟩ := pending_of_peek hpeek
  cases hop : unaryOperator? token.kind with
  | none =>
    rw [hop] at h
    obtain ⟨p, opens, hp, htaken, hended⟩ := ih _ h
    exact ⟨p, opens, .plain hp, by rw [hpending, ← hpending₁, htaken], hended⟩
  | some op =>
    rw [hop] at h
    obtain ⟨operator, s₂, hadvance, h⟩ := outcome_bind_eq_ok.1 h
    obtain ⟨operand, s₃, hoperand, h⟩ := outcome_bind_eq_ok.1 h
    cases h
    obtain ⟨rfl, rfl⟩ := pending_of_advance hadvance hpending₁ (ne_eof_of_unaryOperator? hop)
    obtain ⟨p, opens, hp, htaken, hended⟩ := ih _ hoperand
    exact ⟨operator :: p, opens, .unary hop hp, by simp [hpending, htaken], hended⟩

theorem application_sound :
    Sound (step (read budget) .application) (GreedyStep (Greedy budget) .application) := by
  intro s e s' h
  obtain ⟨callee, s₁, hcallee, h⟩ := outcome_bind_eq_ok.1 h
  obtain ⟨_, _, hget, h⟩ := outcome_bind_eq_ok.1 h
  cases hget
  obtain ⟨p, opens, hp, hpending₁, -⟩ := ih _ hcallee
  obtain rfl := hp.opens_primary
  obtain ⟨q, hq, hpending₂, hended⟩ := calls_sound (ih _) (Nat.le_refl _) h
  exact ⟨p ++ q, _, .application hp hq, by simp [hpending₁, hpending₂], hended⟩

theorem argument_sound :
    Sound (step (read budget) .argument) (GreedyStep (Greedy budget) .argument) := by
  intro s e s' h
  obtain ⟨p, opens, hp, htaken, hended⟩ := ih _ h
  exact ⟨p, opens, .argument hp, htaken, hended⟩

theorem primary_sound :
    Sound (step (read budget) .primary) (GreedyStep (Greedy budget) .primary) := by
  intro s e s' h
  obtain ⟨token, s₁, hexpect, h⟩ := outcome_bind_eq_ok.1 h
  obtain ⟨hmem, hpending₁⟩ := pending_of_expect hexpect (by decide)
  simp only [primaryKinds, List.mem_cons, List.not_mem_nil, or_false] at hmem
  rcases hmem with hkind | hkind | hkind | hkind | hkind <;> simp only [hkind] at h
  · obtain ⟨answer, s₂, hnext, h⟩ := outcome_bind_eq_ok.1 h
    have hpending₂ := pending_of_nextIs_same hnext
    cases answer with
    | true =>
      obtain ⟨inner, _, hinner, h⟩ := outcome_bind_eq_ok.1 h
      cases hinner
      obtain ⟨right, s₃, hright, h⟩ := outcome_bind_eq_ok.1 h
      cases h
      obtain ⟨hrightKind, hpending₃⟩ := pending_of_expect_singleton hright (by decide)
      refine ⟨_, ∅, .unit hkind hrightKind, ?_, ended_empty⟩
      simp [hpending₁, ← hpending₂, hpending₃]
    | false =>
      obtain ⟨inner, s₃, hinner, h⟩ := outcome_bind_eq_ok.1 h
      obtain ⟨right, s₄, hright, h⟩ := outcome_bind_eq_ok.1 h
      cases h
      obtain ⟨p, opens, hp, htaken, hended⟩ := ih _ hinner
      obtain ⟨hrightKind, hpending₃⟩ := pending_of_expect_singleton hright (by decide)
      rw [hpending₃] at hended
      refine ⟨_, ∅, .paren hkind hp (hrightKind ▸ hended) hrightKind, ?_, ended_empty⟩
      simp [hpending₁, ← hpending₂, htaken, hpending₃]
  · cases h
    exact ⟨[token], ∅, .int hkind, hpending₁, ended_empty⟩
  · cases h
    exact ⟨[token], ∅, .ident hkind, hpending₁, ended_empty⟩
  · cases h
    exact ⟨[token], ∅, by simpa [hkind] using GreedyStep.bool (.inl hkind), hpending₁, ended_empty⟩
  · cases h
    exact ⟨[token], ∅, by simpa [hkind] using GreedyStep.bool (.inr hkind), hpending₁, ended_empty⟩

end Productions

/-- What is read is derived greedily, within the budget of the reader. -/
theorem read_sound (budget : Nat) (production : Production) :
    Sound (read budget production) (Greedy budget production) := by
  induction budget generalizing production with
  | zero =>
    intro s e s' h
    cases h
  | succ budget ih =>
    cases production with
    | expr => exact expr_sound ih
    | letExpr => exact letExpr_sound ih
    | ifExpr => exact ifExpr_sound ih
    | fnExpr => exact fnExpr_sound ih
    | infixed level => exact infixed_sound ih level
    | unary => exact unary_sound ih
    | application => exact application_sound ih
    | argument => exact argument_sound ih
    | primary => exact primary_sound ih

end LetLang.Parser
