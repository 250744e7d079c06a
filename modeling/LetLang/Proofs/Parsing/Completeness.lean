import LetLang.Proofs.Parsing.Soundness
/-!
# What is derived greedily is read

Before a text that does not go on with it, a phrase that is derived greedily is read as its tree,
whatever is in the buffer and whatever follows.
-/
namespace LetLang.Parser

open TokenStream

variable {α β : Type}

/-- The reader takes the tokens `p` before `rest`, and nothing else, and gives `a`. -/
def Takes (x : Reading α) (p : List Token) (a : α) (rest : List Token) : Prop :=
  ∀ s : TokenStream, s.pending = p ++ rest →
    ∃ s', outcome x s = (.ok a, s') ∧ s'.view = (rest, s.feed.ending, s.source)

/-- The reader takes whatever is in the relation `R` to its result. -/
def Complete (x : Reading α) (R : List Token → α → Set Kind → Prop) : Prop :=
  ∀ {p a opens rest}, R p a opens → Ended opens rest → Takes x p a rest

/-! ### Sequences -/

section Sequences

variable {x : Reading α} {f : α → Reading β} {p q rest : List Token} {a : α} {b : β}
  {token : Token} {kinds : List Kind}

theorem takes_pure : Takes (pure a) [] a rest :=
  fun _ h => ⟨_, rfl, by rw [view, h, List.nil_append]⟩

theorem Takes.bind (hx : Takes x p a (q ++ rest)) (hf : Takes (f a) q b rest) :
    Takes (x >>= f) (p ++ q) b rest := by
  intro s h
  obtain ⟨s₁, hx, hview⟩ := hx s (by rw [h, List.append_assoc])
  obtain ⟨hpending, hending, hsource⟩ : s₁.pending = q ++ rest ∧
      s₁.feed.ending = s.feed.ending ∧ s₁.source = s.source := by simpa [view] using hview
  obtain ⟨s', hf, hview'⟩ := hf s₁ hpending
  rw [outcome_bind_of_ok hx]
  exact ⟨s', hf, by rw [hview', hending, hsource]⟩

/-- A reader that only looks, before one that takes. -/
theorem Takes.look_bind (hx : Takes x [] a (q ++ rest)) (hf : Takes (f a) q b rest) :
    Takes (x >>= f) q b rest :=
  hx.bind hf

theorem Takes.cons_bind (hx : Takes x [token] a (q ++ rest)) (hf : Takes (f a) q b rest) :
    Takes (x >>= f) (token :: q) b rest :=
  hx.bind hf

theorem Takes.bind_look (hx : Takes x p a rest) (hf : Takes (f a) [] b rest) :
    Takes (x >>= f) p b rest := by
  simpa using hx.bind (q := []) hf

theorem takes_get_bind {f : TokenStream → Reading β}
    (hf : ∀ s : TokenStream, s.pending = p ++ rest → Takes (f s) p b rest) :
    Takes (get >>= f) p b rest := by
  intro s h
  rw [outcome_bind_of_ok (outcome_get s)]
  exact hf s h s h

theorem takes_peek : Takes peek [] token (token :: rest) := by
  intro s h
  obtain ⟨s', hpeek, hview⟩ := outcome_peek_of_cons h
  exact ⟨s', hpeek, by rw [hview, view, h, List.nil_append]⟩

theorem takes_nextIs_of_mem (hkind : token.kind ∈ kinds) :
    Takes (nextIs kinds) [] true (token :: rest) := by
  intro s h
  obtain ⟨s', hnext, hview⟩ := outcome_nextIs_of_cons kinds h
  rw [decide_eq_true hkind] at hnext
  exact ⟨s', hnext, by rw [hview, view, h, List.nil_append]⟩

theorem takes_nextIs_of_notMem (hkind : token.kind ∉ kinds) :
    Takes (nextIs kinds) [] false (token :: rest) := by
  intro s h
  obtain ⟨s', hnext, hview⟩ := outcome_nextIs_of_cons kinds h
  rw [decide_eq_false hkind] at hnext
  exact ⟨s', hnext, by rw [hview, view, h, List.nil_append]⟩

theorem takes_advance (hkind : token.kind ≠ .eof) : Takes advance [token] token rest := by
  intro s h
  exact outcome_advance_of_cons h hkind

theorem takes_expect (hkind : token.kind ∈ kinds) (hkinds : .eof ∉ kinds) :
    Takes (expect kinds) [token] token rest := by
  intro s h
  exact outcome_expect_of_mem h hkind hkinds

theorem takes_expect_singleton {kind : Kind} (hkind : token.kind = kind) (hne : kind ≠ .eof) :
    Takes (expect [kind]) [token] token rest :=
  takes_expect (by simpa using hkind) (by simpa using hne.symm)

end Sequences

theorem identifier_complete : Complete identifier Name := by
  rintro _ _ _ rest ⟨hkind⟩ -
  exact (takes_expect_singleton hkind (by decide)).cons_bind takes_pure

/-! ### Loops -/

section Loops

variable {R : List Token → α → Set Kind → Prop} {item : Reading α} {close : Kind}
  {last : Token} {rest : List Token}

theorem separated_nil (hclose : last.kind = close) (rounds : List Token) :
    Takes (separated close item rounds) [] [] (last :: rest) := by
  rw [separated.eq_def]
  exact (takes_nextIs_of_mem (by simp [hclose])).look_bind takes_pure

/-- A list of items is a first one, and others that the loop takes after it. -/
theorem separated_complete (hitem : Complete item R) (hclose : last.kind = close)
    (hcomma : close ≠ .comma) (heof : close ≠ .eof) {p : List Token} {items : List α}
    (h : Items R close p items) :
    ∃ p₁ p₂ first others opens, p = p₁ ++ p₂ ∧ items = first :: others ∧ R p₁ first opens ∧
      Ended opens (p₂ ++ last :: rest) ∧
      ∀ rounds : List Token, p₂.length ≤ rounds.length →
        Takes (separated close item rounds) p₂ others (last :: rest) := by
  induction h with
  | @single p first opens hp hopens =>
    refine ⟨p, [], first, [], opens, by simp, rfl, hp,
      ended_cons.2 (by rwa [hclose]), ?_⟩
    intro rounds _
    exact separated_nil hclose rounds
  | @cons p q first items opens comma hp hkind hopens hrest ih =>
    obtain ⟨q₁, q₂, second, others, opens', rfl, rfl, hq₁, hended, hothers⟩ := ih
    refine ⟨p, comma :: (q₁ ++ q₂), first, second :: others, opens, rfl, rfl, hp,
      ended_cons.2 (by rwa [hkind]), ?_⟩
    intro rounds hrounds
    cases rounds with
    | nil => simp at hrounds
    | cons round rounds =>
      rw [separated]
      refine (takes_nextIs_of_notMem (by simp [hkind, hcomma.symm])).look_bind ?_
      rw [if_neg Bool.false_ne_true]
      refine (takes_expect (by simp [hkind]) (by simp [heof.symm])).cons_bind ?_
      refine (hitem hq₁ hended).bind ?_
      have hlength : q₂.length ≤ rounds.length := by
        simp only [List.length_cons, List.length_append] at hrounds
        omega
      exact (hothers rounds hlength).bind_look takes_pure

theorem enclosed_complete (hitem : Complete item R) {present : Reading Bool}
    (hclose : last.kind = close) (hcomma : close ≠ .comma) (heof : close ≠ .eof)
    (habsent : Takes present [] false (last :: rest))
    (hpresent : ∀ {p items}, Items R close p items → Takes present [] true (p ++ last :: rest))
    {p : List Token} {items : List α} (h : Enclosed R close p items) :
    Takes (enclosed close present item) p items (last :: rest) := by
  cases h with
  | none => exact habsent.look_bind takes_pure
  | some h =>
    refine (hpresent h).look_bind ?_
    rw [if_pos rfl]
    obtain ⟨p₁, p₂, first, others, opens, rfl, rfl, hp₁, hended, hothers⟩ :=
      separated_complete hitem hclose hcomma heof h
    refine (hitem hp₁ hended).bind ?_
    refine takes_get_bind fun s hs => ?_
    exact (hothers s.pending (by simp [hs])).bind_look takes_pure

end Loops

section Loops

variable {R : List Token → Expr → Set Kind → Prop} {rest : List Token}

theorem Operations.ended {level : Level} {left e : Expr} {opens opens' : Set Kind}
    {p : List Token} (h : Operations R level left opens p e opens') (hended : Ended opens' rest) :
    Ended opens (p ++ rest) := by
  cases h with
  | done => exact (ended_union.1 hended).2
  | more _ hopens _ _ => exact hopens

/-- Every level has an operator, so its phrases end before some token. -/
theorem ended_operators {level : Level}
    (h : Ended {kind | (level.operator? kind).isSome} rest) :
    ∃ token rest', rest = token :: rest' ∧ level.operator? token.kind = none := by
  cases rest with
  | nil =>
    have hnone : ∀ kind, level.operator? kind = none := by
      intro kind
      simpa using Set.eq_empty_iff_forall_notMem.1 h kind
    cases level with
    | logic => cases hnone .andWord
    | comparison => cases hnone .eq
    | sum => cases hnone .plus
    | product => cases hnone .star
  | cons token rest => exact ⟨token, rest, rfl, by simpa [Ended] using h⟩

theorem operations_complete {operand : Reading Expr} (hoperand : Complete operand R)
    {level : Level} {left e : Expr} {opens opens' : Set Kind} {p : List Token}
    (h : Operations R level left opens p e opens') (hended : Ended opens' rest)
    {rounds : List Token} (hrounds : (p ++ rest).length ≤ rounds.length) :
    Takes (operations level operand rounds left) p e rest := by
  induction h generalizing rounds with
  | done =>
    obtain ⟨token, rest, rfl, hop⟩ := ended_operators (ended_union.1 hended).1
    cases rounds with
    | nil => simp at hrounds
    | cons round rounds =>
      rw [operations]
      refine takes_peek.look_bind ?_
      rw [hop]
      exact takes_pure
  | @more left opens operator op p q right opens' e opens'' hop hopens hright hrest ih =>
    cases rounds with
    | nil => simp at hrounds
    | cons round rounds =>
      rw [operations]
      refine takes_peek.look_bind ?_
      rw [hop]
      refine (takes_advance (ne_eof_of_operator? hop)).cons_bind ?_
      refine (hoperand hright (hrest.ended hended)).bind (ih hended ?_)
      simp only [List.cons_append, List.length_cons, List.length_append] at hrounds ⊢
      omega

theorem calls_complete {argument : Reading Expr} (hargument : Complete argument R)
    (hbegins : ∀ {p e opens}, R p e opens → Begins Production.argument.starters p)
    {callee e : Expr} {p : List Token} (h : Calls R callee p e) (hended : Ended {.lparen} rest)
    {rounds : List Token} (hrounds : (p ++ rest).length ≤ rounds.length) :
    Takes (calls argument rounds callee) p e rest := by
  induction h generalizing rounds with
  | done =>
    cases rest with
    | nil => simp [Ended] at hended
    | cons token rest =>
      cases rounds with
      | nil => simp at hrounds
      | cons round rounds =>
        rw [calls]
        exact (takes_nextIs_of_notMem (by simpa [Ended] using hended)).look_bind takes_pure
  | @more left right p q callee arguments e hleft harguments hright hrest ih =>
    cases rounds with
    | nil => simp at hrounds
    | cons round rounds =>
      rw [calls]
      refine (takes_nextIs_of_mem (by simp [hleft])).look_bind ?_
      rw [if_pos rfl]
      refine (takes_expect_singleton hleft (by decide)).cons_bind ?_
      have habsent : Takes (return !(← nextIs [.rparen])) [] false (right :: (q ++ rest)) :=
        (takes_nextIs_of_mem (by simp [hright])).look_bind takes_pure
      have hpresent : ∀ {p arguments}, Items R .rparen p arguments →
          Takes (return !(← nextIs [.rparen])) [] true (p ++ right :: (q ++ rest)) := by
        intro p arguments h
        obtain ⟨token, p', rfl, hkind⟩ := h.begins hbegins
        have hmem := notMem_rparen_of_starters hkind
        exact (takes_nextIs_of_notMem hmem).look_bind takes_pure
      have hargs := enclosed_complete hargument hright (by decide) (by decide) habsent hpresent
        harguments
      refine Takes.bind (q := right :: q) hargs ?_
      refine (takes_expect_singleton hright (by decide)).cons_bind (ih ?_)
      simp only [List.cons_append, List.append_assoc, List.length_cons, List.length_append]
        at hrounds ⊢
      omega

end Loops

theorem parameters_complete {p rest : List Token} {params : List String} {right : Token}
    (h : Enclosed Name .vbar p params) (hright : right.kind = .vbar) :
    Takes (enclosed .vbar (nextIs [.ident]) identifier) p params (right :: rest) := by
  have habsent : Takes (nextIs [.ident]) [] false (right :: rest) :=
    takes_nextIs_of_notMem (by simp [hright])
  have hpresent : ∀ {p params}, Items Name .vbar p params →
      Takes (nextIs [.ident]) [] true (p ++ right :: rest) := by
    intro p params h
    obtain ⟨token, p', rfl, hkind⟩ := h.begins fun h => h.begins
    exact takes_nextIs_of_mem hkind
  exact enclosed_complete identifier_complete hright (by decide) (by decide) habsent hpresent h

/-! ### Productions -/

section Productions

variable {budget : Nat}
  (ih : ∀ production, Complete (read budget production) (Greedy budget production))

include ih

theorem expr_complete : Complete (step (read budget) .expr) (GreedyStep (Greedy budget) .expr) := by
  intro p e opens rest h hended
  cases h with
  | exprLet h =>
    obtain ⟨token, p, rfl, hkind⟩ := h.begins
    refine takes_peek.look_bind ?_
    rw [List.mem_singleton.1 hkind]
    exact ih _ h hended
  | exprIf h =>
    obtain ⟨token, p, rfl, hkind⟩ := h.begins
    refine takes_peek.look_bind ?_
    rw [List.mem_singleton.1 hkind]
    exact ih _ h hended
  | exprFn h =>
    obtain ⟨token, p, rfl, hkind⟩ := h.begins
    refine takes_peek.look_bind ?_
    rw [List.mem_singleton.1 hkind]
    exact ih _ h hended
  | exprLogic h =>
    obtain ⟨token, p, rfl, hkind⟩ := h.begins
    refine takes_peek.look_bind ?_
    split
    · next heq => exact absurd (heq ▸ hkind) (by decide)
    · next heq => exact absurd (heq ▸ hkind) (by decide)
    · next heq => exact absurd (heq ▸ hkind) (by decide)
    · exact ih _ h hended

theorem letExpr_complete :
    Complete (step (read budget) .letExpr) (GreedyStep (Greedy budget) .letExpr) := by
  intro p e opens rest h hended
  cases h with
  | define hword hname heq hbound =>
    refine (takes_expect_singleton hword (by decide)).cons_bind ?_
    refine (identifier_complete (.mk hname) ended_empty).cons_bind ?_
    refine (takes_expect_singleton heq (by decide)).cons_bind ?_
    cases rest with
    | nil => exact absurd hended (Set.insert_nonempty _ _).ne_empty
    | cons token rest =>
      obtain ⟨hkind, hended⟩ := ended_insert.1 hended
      refine (ih _ hbound hended).bind_look ?_
      exact (takes_nextIs_of_notMem (by simpa using hkind)).look_bind takes_pure
  | letIn hword hname heq hbound hopens hin hbody =>
    refine (takes_expect_singleton hword (by decide)).cons_bind ?_
    refine (identifier_complete (.mk hname) ended_empty).cons_bind ?_
    refine (takes_expect_singleton heq (by decide)).cons_bind ?_
    refine (ih _ hbound (ended_cons.2 (by rwa [hin]))).bind ?_
    refine (takes_nextIs_of_mem (by simp [hin])).look_bind ?_
    rw [if_pos rfl]
    refine (takes_advance (by simp [hin])).cons_bind ?_
    exact (ih _ hbody hended).bind_look takes_pure

theorem ifExpr_complete :
    Complete (step (read budget) .ifExpr) (GreedyStep (Greedy budget) .ifExpr) := by
  intro p e opens rest h hended
  cases h with
  | ifThen hword hcond hopens hthen hyes =>
    refine (takes_expect_singleton hword (by decide)).cons_bind ?_
    refine (ih _ hcond (ended_cons.2 (by rwa [hthen]))).bind ?_
    refine (takes_expect_singleton hthen (by decide)).cons_bind ?_
    cases rest with
    | nil => exact absurd hended (Set.insert_nonempty _ _).ne_empty
    | cons token rest =>
      obtain ⟨hkind, hended⟩ := ended_insert.1 hended
      refine (ih _ hyes hended).bind_look ?_
      exact (takes_nextIs_of_notMem (by simpa using hkind)).look_bind takes_pure
  | ifThenElse hword hcond hopens hthen hyes hopens' helse hno =>
    refine (takes_expect_singleton hword (by decide)).cons_bind ?_
    refine (ih _ hcond (ended_cons.2 (by rwa [hthen]))).bind ?_
    refine (takes_expect_singleton hthen (by decide)).cons_bind ?_
    refine (ih _ hyes (ended_cons.2 (by rwa [helse]))).bind ?_
    refine (takes_nextIs_of_mem (by simp [helse])).look_bind ?_
    rw [if_pos rfl]
    refine (takes_advance (by simp [helse])).cons_bind ?_
    exact (ih _ hno hended).bind_look takes_pure

theorem fnExpr_complete :
    Complete (step (read budget) .fnExpr) (GreedyStep (Greedy budget) .fnExpr) := by
  intro p e opens rest h hended
  cases h with
  | @fn left right arrow params p q body opens hleft hparams hright harrow hbody =>
    have hparams := @parameters_complete _ (arrow :: (q ++ rest)) _ _ hparams hright
    refine (takes_expect_singleton hleft (by decide)).cons_bind ?_
    refine Takes.bind (q := right :: arrow :: q) hparams ?_
    refine (takes_expect_singleton hright (by decide)).cons_bind ?_
    refine (takes_expect_singleton harrow (by decide)).cons_bind ?_
    exact (ih _ hbody hended).bind_look takes_pure

theorem infixed_complete (level : Level) :
    Complete (step (read budget) (.infixed level))
      (GreedyStep (Greedy budget) (.infixed level)) := by
  intro p e opens rest h hended
  cases h with
  | infixed hleft hrest =>
    refine (ih _ hleft (hrest.ended hended)).bind ?_
    refine takes_get_bind fun s hs => ?_
    exact operations_complete (ih _) hrest hended (by rw [hs])

theorem unary_complete :
    Complete (step (read budget) .unary) (GreedyStep (Greedy budget) .unary) := by
  intro p e opens rest h hended
  cases h with
  | unary hop h =>
    refine takes_peek.look_bind ?_
    rw [hop]
    refine (takes_advance (ne_eof_of_unaryOperator? hop)).cons_bind ?_
    exact (ih _ h hended).bind_look takes_pure
  | plain h =>
    obtain ⟨token, p, rfl, hkind⟩ := h.begins
    refine takes_peek.look_bind ?_
    cases hop : unaryOperator? token.kind with
    | none => exact ih _ h hended
    | some op =>
      rcases unaryOperator?_eq_some_iff.1 hop with ⟨heq, -⟩ | ⟨heq, -⟩ <;>
        exact absurd (heq ▸ hkind) (by decide)

theorem application_complete :
    Complete (step (read budget) .application) (GreedyStep (Greedy budget) .application) := by
  intro p e opens rest h hended
  cases h with
  | application hcallee hcalls =>
    refine (ih _ hcallee ended_empty).bind ?_
    refine takes_get_bind fun s hs => ?_
    exact calls_complete (ih _) (fun h => h.begins) hcalls hended (by rw [hs])

theorem argument_complete :
    Complete (step (read budget) .argument) (GreedyStep (Greedy budget) .argument) := by
  intro p e opens rest h hended
  cases h with
  | argument h => exact ih _ h hended

theorem primary_complete :
    Complete (step (read budget) .primary) (GreedyStep (Greedy budget) .primary) := by
  intro p e opens rest h hended
  cases h with
  | paren hleft h hopens hright =>
    refine (takes_expect (by simp [hleft, primaryKinds]) (by decide)).cons_bind ?_
    rw [hleft]
    obtain ⟨token, p, rfl, hkind⟩ := h.begins
    refine (takes_nextIs_of_notMem (notMem_rparen_of_starters hkind)).look_bind ?_
    rw [if_neg Bool.false_ne_true]
    refine (ih _ h (ended_cons.2 (by rwa [hright]))).bind ?_
    exact (takes_expect_singleton hright (by decide)).cons_bind takes_pure
  | unit hleft hright =>
    refine (takes_expect (by simp [hleft, primaryKinds]) (by decide)).cons_bind ?_
    rw [hleft]
    refine (takes_nextIs_of_mem (by simp [hright])).look_bind ?_
    rw [if_pos rfl]
    refine takes_pure.look_bind ?_
    exact (takes_expect_singleton hright (by decide)).cons_bind takes_pure
  | int h =>
    refine (takes_expect (by simp [h, primaryKinds]) (by decide)).cons_bind ?_
    rw [h]
    exact takes_pure
  | ident h =>
    refine (takes_expect (by simp [h, primaryKinds]) (by decide)).cons_bind ?_
    rw [h]
    exact takes_pure
  | bool h =>
    rcases h with h | h
    all_goals
      refine (takes_expect (by simp [h, primaryKinds]) (by decide)).cons_bind ?_
      rw [h]
      exact takes_pure

end Productions

/-- What is derived greedily is read, within the budget of the derivation. -/
theorem read_complete (budget : Nat) (production : Production) :
    Complete (read budget production) (Greedy budget production) := by
  induction budget generalizing production with
  | zero =>
    intro p e opens rest h
    exact absurd h id
  | succ budget ih =>
    cases production with
    | expr => exact expr_complete ih
    | letExpr => exact letExpr_complete ih
    | ifExpr => exact ifExpr_complete ih
    | fnExpr => exact fnExpr_complete ih
    | infixed level => exact infixed_complete ih level
    | unary => exact unary_complete ih
    | application => exact application_complete ih
    | argument => exact argument_complete ih
    | primary => exact primary_complete ih

end LetLang.Parser
