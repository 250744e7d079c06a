import LetLang.Proofs.Grammar.Greedy
/-!
# Every phrase is derived greedily

A phrase of the grammar has a greedy derivation, if perhaps of another tree: where a derivation
leaves a phrase that is open to the next word, the word and what comes after it move into that
phrase. So taking all that can be taken never turns a phrase into something that is none.
-/
namespace LetLang.Parser

variable {α : Type}

/-- Greedy derivations within some budget. -/
def Greedily (production : Production) (p : List Token) (e : Expr) (opens : Set Kind) : Prop :=
  ∃ budget, Greedy budget production p e opens

/-! ### One budget for several parts -/

theorem Greedily.both {production production' : Production} {p p' : List Token} {e e' : Expr}
    {opens opens' : Set Kind} (h : Greedily production p e opens)
    (h' : Greedily production' p' e' opens') :
    ∃ budget, Greedy budget production p e opens ∧ Greedy budget production' p' e' opens' := by
  obtain ⟨m, hm⟩ := h
  obtain ⟨n, hn⟩ := h'
  exact ⟨max m n, hm.mono (Nat.le_max_left m n), hn.mono (Nat.le_max_right m n)⟩

theorem Items.exists_budget {production : Production} {close : Kind} {p : List Token}
    {items : List Expr} (h : Items (Greedily production) close p items) :
    ∃ budget, Items (Greedy budget production) close p items := by
  induction h with
  | single hitem hopens =>
    obtain ⟨n, hitem⟩ := hitem
    exact ⟨n, .single hitem hopens⟩
  | cons hitem hcomma hopens _ ih =>
    obtain ⟨m, hitem⟩ := hitem
    obtain ⟨n, hrest⟩ := ih
    have hitem' := hitem.mono (Nat.le_max_left m n)
    have hrest' := hrest.imp fun _ _ _ h => h.mono (Nat.le_max_right m n)
    exact ⟨max m n, .cons hitem' hcomma hopens hrest'⟩

theorem GreedyStep.exists_greedily {budget : Nat} {production : Production} {p q : List Token}
    {e : Expr} {opens : Set Kind} (heq : q = p)
    (h : GreedyStep (Greedy budget) production p e opens) :
    ∃ e' opens', Greedily production q e' opens' :=
  ⟨e, opens, budget + 1, heq ▸ h⟩

/-! ### Lists of items, operators and calls -/

theorem CommaJoined.exists_items {R : List Token → α → Set Kind → Prop} {close : Kind}
    {parts : List (List Token)} {p : List Token} (h : CommaJoined parts p)
    (hnonempty : parts ≠ [])
    (hparts : ∀ part ∈ parts, ∃ item opens, R part item opens ∧ close ∉ opens ∧ .comma ∉ opens) :
    ∃ items, Items R close p items := by
  induction h with
  | nil => exact absurd rfl hnonempty
  | single =>
    obtain ⟨item, opens, hitem, hclose, -⟩ := hparts _ (List.mem_singleton_self _)
    exact ⟨[item], .single hitem hclose⟩
  | cons hcomma _ ih =>
    obtain ⟨hpart, hparts⟩ := List.forall_mem_cons.1 hparts
    obtain ⟨item, opens, hitem, -, hopens⟩ := hpart
    obtain ⟨items, hitems⟩ := ih (by simp) hparts
    exact ⟨item :: items, .cons hitem hcomma hopens hitems⟩

theorem Operations.snoc {R : List Token → Expr → Set Kind → Prop} {level : Level}
    {operator : Token} {op : BinaryOp} (hop : level.operator? operator.kind = some op)
    (hR : ∀ p e opens, R p e opens → operator.kind ∉ opens) {left e : Expr}
    {opens opens' : Set Kind} {p : List Token} (h : Operations R level left opens p e opens')
    (hopens : operator.kind ∉ opens) {q : List Token} {right : Expr} {opens'' : Set Kind}
    (hright : R q right opens'') :
    ∃ opens₁, Operations R level left opens (p ++ operator :: q) (.binary op e right) opens₁ := by
  induction h with
  | done =>
    refine ⟨{kind | (level.operator? kind).isSome} ∪ opens'', ?_⟩
    simpa using Operations.more hop hopens hright .done
  | more hop' hopens' hright' _ ih =>
    obtain ⟨opens₁, hrest⟩ := ih (hR _ _ _ hright')
    refine ⟨opens₁, ?_⟩
    simpa using Operations.more hop' hopens' hright' hrest

theorem Calls.snoc {R : List Token → Expr → Set Kind → Prop} {callee e : Expr}
    {p : List Token} (h : Calls R callee p e) {left right : Token} {q : List Token}
    {arguments : List Expr} (hleft : left.kind = .lparen)
    (harguments : Enclosed R .rparen q arguments) (hright : right.kind = .rparen) :
    Calls R callee (p ++ left :: (q ++ [right])) (applied e arguments) := by
  induction h with
  | done => exact .more hleft harguments hright .done
  | more hleft' harguments' hright' _ ih => simpa using Calls.more hleft' harguments' hright' ih

/-! ### Open phrases take the next word -/

/-- A phrase that is open to a word takes it, with the expression after it. -/
theorem Greedy.absorb {budget : Nat} {production : Production} {p q : List Token} {e rest : Expr}
    {opens opens' : Set Kind} {word : Token} (h : Greedy budget production p e opens)
    (hopen : word.kind ∈ opens) (hword : word.kind = .inWord ∨ word.kind = .elseWord)
    (hrest : Greedily .expr q rest opens') :
    ∃ e' opens'', Greedily production (p ++ word :: q) e' opens'' := by
  induction budget generalizing production p e opens with
  | zero => exact absurd h id
  | succ budget ih =>
    have hmem := h.mem_extenders hopen
    cases h with
    | exprLet h =>
      obtain ⟨e', opens'', n, h⟩ := ih h hopen
      exact (GreedyStep.exprLet h).exists_greedily rfl
    | exprIf h =>
      obtain ⟨e', opens'', n, h⟩ := ih h hopen
      exact (GreedyStep.exprIf h).exists_greedily rfl
    | exprFn h =>
      obtain ⟨e', opens'', n, h⟩ := ih h hopen
      exact (GreedyStep.exprFn h).exists_greedily rfl
    | argument h =>
      obtain ⟨e', opens'', n, h⟩ := ih h hopen
      exact (GreedyStep.argument h).exists_greedily rfl
    | @define _ _ _ _ _ opens hlet hname heq hbound =>
      by_cases hinner : word.kind ∈ opens
      · obtain ⟨e', opens'', n, h⟩ := ih hbound hinner
        exact (GreedyStep.define hlet hname heq h).exists_greedily rfl
      · have hin : word.kind = .inWord := hopen.resolve_right hinner
        obtain ⟨n, hbound, hbody⟩ := Greedily.both ⟨_, hbound⟩ hrest
        exact (GreedyStep.letIn hlet hname heq hbound (hin ▸ hinner) hin hbody).exists_greedily rfl
    | letIn hlet hname heq hbound hopens hin hbody =>
      obtain ⟨e', opens'', hbody⟩ := ih hbody hopen
      obtain ⟨n, hbound, hbody⟩ := Greedily.both ⟨_, hbound⟩ hbody
      exact (GreedyStep.letIn hlet hname heq hbound hopens hin hbody).exists_greedily (by simp)
    | @ifThen _ _ _ _ _ _ _ opens hif hcond hopens hthen hyes =>
      by_cases hinner : word.kind ∈ opens
      · obtain ⟨e', opens'', hyes⟩ := ih hyes hinner
        obtain ⟨n, hcond, hyes⟩ := Greedily.both ⟨_, hcond⟩ hyes
        exact (GreedyStep.ifThen hif hcond hopens hthen hyes).exists_greedily (by simp)
      · have helse : word.kind = .elseWord := hopen.resolve_right hinner
        obtain ⟨n, hyes, hno⟩ := Greedily.both ⟨_, hyes⟩ hrest
        have hcond := hcond.mono (Nat.le_max_left budget n)
        have hyes := hyes.mono (Nat.le_max_right budget n)
        have hno := hno.mono (Nat.le_max_right budget n)
        exact (GreedyStep.ifThenElse hif hcond hopens hthen hyes (helse ▸ hinner) helse
          hno).exists_greedily (by simp)
    | ifThenElse hif hcond hopens hthen hyes hopens' helse hno =>
      obtain ⟨e', opens'', n, hno⟩ := ih hno hopen
      have hcond := hcond.mono (Nat.le_max_left budget n)
      have hyes := hyes.mono (Nat.le_max_left budget n)
      have hno := hno.mono (Nat.le_max_right budget n)
      exact (GreedyStep.ifThenElse hif hcond hopens hthen hyes hopens' helse
        hno).exists_greedily (by simp)
    | fn hleft hparams hright harrow hbody =>
      obtain ⟨e', opens'', n, hbody⟩ := ih hbody hopen
      exact (GreedyStep.fn hleft hparams hright harrow hbody).exists_greedily (by simp)
    | exprLogic h =>
      have hmem := h.mem_extenders hopen
      rcases hword with hword | hword <;> simp [hword, Production.extenders] at hmem
    | @infixed level _ _ _ _ _ _ _ _ =>
      rcases hword with hword | hword <;> cases level <;> simp [hword, Production.extenders] at hmem
    | _ => rcases hword with hword | hword <;> simp [hword, Production.extenders] at hmem

/-! ### Dominance -/

section Productions

variable {p q r : List Token} {opens opens' opens'' : Set Kind}

/-- If the bound expression ends in an open `let`, then that one takes the body. -/
theorem exists_greedily_letIn {word name eq inWord : Token} {bound body : Expr}
    (hword : word.kind = .letWord) (hname : name.kind = .ident) (heq : eq.kind = .eq)
    (hin : inWord.kind = .inWord) (hbound : Greedily .expr p bound opens)
    (hbody : Greedily .expr q body opens') :
    ∃ e opens, Greedily .letExpr (word :: name :: eq :: (p ++ inWord :: q)) e opens := by
  by_cases hopens : inWord.kind ∈ opens
  · obtain ⟨n, hbound⟩ := hbound
    obtain ⟨e', opens₁, m, h⟩ := hbound.absorb hopens (.inl hin) hbody
    exact (GreedyStep.define hword hname heq h).exists_greedily rfl
  · obtain ⟨n, hbound, hbody⟩ := hbound.both hbody
    exact (GreedyStep.letIn hword hname heq hbound (hin ▸ hopens) hin hbody).exists_greedily rfl

/-- If the first branch ends in an open `if`, then that one takes the second branch. -/
theorem exists_greedily_ifThenElse {word thenWord elseWord : Token} {cond yes no : Expr}
    (hword : word.kind = .ifWord) (hthen : thenWord.kind = .thenWord)
    (helse : elseWord.kind = .elseWord) (hcond : Greedily .expr p cond opens)
    (hyes : Greedily .expr q yes opens') (hno : Greedily .expr r no opens'') :
    ∃ e opens, Greedily .ifExpr (word :: (p ++ thenWord :: (q ++ elseWord :: r))) e opens := by
  obtain ⟨k, hcond⟩ := hcond
  have hopens : .thenWord ∉ opens := hcond.notMem_opens (by decide)
  by_cases hopens' : elseWord.kind ∈ opens'
  · obtain ⟨n, hyes⟩ := hyes
    obtain ⟨e', opens₁, hyes⟩ := hyes.absorb hopens' (.inr helse) hno
    obtain ⟨n, hcond, hyes⟩ := Greedily.both ⟨k, hcond⟩ hyes
    exact (GreedyStep.ifThen hword hcond hopens hthen hyes).exists_greedily rfl
  · obtain ⟨n, hyes, hno⟩ := hyes.both hno
    have hcond := hcond.mono (Nat.le_max_left k n)
    have hyes := hyes.mono (Nat.le_max_right k n)
    have hno := hno.mono (Nat.le_max_right k n)
    exact (GreedyStep.ifThenElse hword hcond hopens hthen hyes (helse ▸ hopens') helse
      hno).exists_greedily rfl

theorem exists_greedily_fn {left right arrow : Token} {names : List Token} {body : Expr}
    (hleft : left.kind = .vbar) (hnonempty : names ≠ [])
    (hnames : ∀ name ∈ names, name.kind = .ident) (hparams : CommaJoined (names.map ([·])) p)
    (hright : right.kind = .vbar) (harrow : arrow.kind = .arrow)
    (hbody : Greedily .expr q body opens) :
    ∃ e opens, Greedily .fnExpr (left :: (p ++ right :: arrow :: q)) e opens := by
  obtain ⟨n, hbody⟩ := hbody
  have heach : ∀ part ∈ names.map ([·]), ∃ item opens,
      Name part item opens ∧ .vbar ∉ opens ∧ .comma ∉ opens := by
    intro part hpart
    obtain ⟨name, hname, rfl⟩ := List.mem_map.1 hpart
    exact ⟨name.text, ∅, .mk (hnames name hname), by simp, by simp⟩
  obtain ⟨params, hitems⟩ := hparams.exists_items (by simpa using hnonempty) heach
  exact (GreedyStep.fn hleft (.some hitems) hright harrow hbody).exists_greedily rfl

theorem exists_greedily_operation {level : Level} {operator : Token} {op : BinaryOp}
    {left right : Expr} (hop : Spells level operator.kind op)
    (hleft : Greedily (.infixed level) p left opens)
    (hright : Greedily level.operand q right opens') :
    ∃ e opens, Greedily (.infixed level) (p ++ operator :: q) e opens := by
  obtain ⟨n, hleft, hright⟩ := hleft.both hright
  have hR : ∀ p e opens, Greedy n level.operand p e opens → operator.kind ∉ opens :=
    fun _ _ _ h => h.notMem_opens hop.notMem_extenders
  cases hleft.succ with
  | infixed hfirst hrest =>
    obtain ⟨opens'', hrest⟩ :=
      hrest.snoc (operator?_eq_some_iff.2 hop) hR (hR _ _ _ hfirst) hright
    exact (GreedyStep.infixed hfirst hrest).exists_greedily (by simp)

theorem exists_greedily_call {left right : Token} {arguments : List Expr} {callee : Expr}
    {budget : Nat} (hleft : left.kind = .lparen)
    (harguments : Enclosed (Greedy budget .argument) .rparen q arguments)
    (hright : right.kind = .rparen) (hcallee : Greedily .application p callee opens) :
    ∃ e opens, Greedily .application (p ++ left :: (q ++ [right])) e opens := by
  obtain ⟨n, hcallee⟩ := hcallee
  have harguments := harguments.imp fun _ _ _ h => h.mono (Nat.le_max_right n budget)
  cases (hcallee.mono (Nat.le_max_left n budget)).succ with
  | application hprimary hcalls =>
    have hcalls := hcalls.snoc hleft harguments hright
    exact (GreedyStep.application hprimary hcalls).exists_greedily (by simp)

end Productions

/-- Every phrase has a greedy derivation. -/
theorem Derives.exists_greedily {production : Production} {p : List Token} {e : Expr}
    (h : Derives production p e) : ∃ e' opens, Greedily production p e' opens := by
  induction h with
  | exprLet _ ih =>
    obtain ⟨e', opens, n, h⟩ := ih
    exact (GreedyStep.exprLet h).exists_greedily rfl
  | exprIf _ ih =>
    obtain ⟨e', opens, n, h⟩ := ih
    exact (GreedyStep.exprIf h).exists_greedily rfl
  | exprFn _ ih =>
    obtain ⟨e', opens, n, h⟩ := ih
    exact (GreedyStep.exprFn h).exists_greedily rfl
  | exprLogic _ ih =>
    obtain ⟨e', opens, n, h⟩ := ih
    exact (GreedyStep.exprLogic h).exists_greedily rfl
  | define hword hname heq _ ih =>
    obtain ⟨e', opens, n, h⟩ := ih
    exact (GreedyStep.define hword hname heq h).exists_greedily rfl
  | letIn hword hname heq _ hin _ ihbound ihbody =>
    obtain ⟨bound, opens, hbound⟩ := ihbound
    obtain ⟨body, opens', hbody⟩ := ihbody
    exact exists_greedily_letIn hword hname heq hin hbound hbody
  | ifThen hword _ hthen _ ihcond ihyes =>
    obtain ⟨cond, opens, hcond⟩ := ihcond
    obtain ⟨yes, opens', hyes⟩ := ihyes
    obtain ⟨n, hcond, hyes⟩ := hcond.both hyes
    have hopens : .thenWord ∉ opens := hcond.notMem_opens (by decide)
    exact (GreedyStep.ifThen hword hcond hopens hthen hyes).exists_greedily rfl
  | ifThenElse hword _ hthen _ helse _ ihcond ihyes ihno =>
    obtain ⟨cond, opens, hcond⟩ := ihcond
    obtain ⟨yes, opens', hyes⟩ := ihyes
    obtain ⟨no, opens'', hno⟩ := ihno
    exact exists_greedily_ifThenElse hword hthen helse hcond hyes hno
  | thunk hleft hright harrow _ ih =>
    obtain ⟨e', opens, n, h⟩ := ih
    exact (GreedyStep.fn hleft .none hright harrow h).exists_greedily rfl
  | fn hleft hnonempty hnames hparams hright harrow _ ih =>
    obtain ⟨e', opens, h⟩ := ih
    exact exists_greedily_fn hleft hnonempty hnames hparams hright harrow h
  | operand _ ih =>
    obtain ⟨e', opens, n, h⟩ := ih
    exact (GreedyStep.infixed h .done).exists_greedily (by simp)
  | operation _ hop _ ihleft ihright =>
    obtain ⟨left, opens, hleft⟩ := ihleft
    obtain ⟨right, opens', hright⟩ := ihright
    exact exists_greedily_operation hop hleft hright
  | not hword _ ih =>
    obtain ⟨e', opens, n, h⟩ := ih
    have hop := unaryOperator?_eq_some_iff.2 (.inl ⟨hword, rfl⟩)
    exact (GreedyStep.unary hop h).exists_greedily rfl
  | negate hsign _ ih =>
    obtain ⟨e', opens, n, h⟩ := ih
    have hop := unaryOperator?_eq_some_iff.2 (.inr ⟨hsign, rfl⟩)
    exact (GreedyStep.unary hop h).exists_greedily rfl
  | plain _ ih =>
    obtain ⟨e', opens, n, h⟩ := ih
    exact (GreedyStep.plain h).exists_greedily rfl
  | callee _ ih =>
    obtain ⟨e', opens, n, h⟩ := ih
    obtain rfl := h.opens_primary
    exact (GreedyStep.application h .done).exists_greedily (by simp)
  | callUnit _ hleft hright ih =>
    obtain ⟨callee, opens, hcallee⟩ := ih
    have hnone : Enclosed (Greedy 0 .argument) .rparen [] [] := .none
    exact exists_greedily_call hleft hnone hright hcallee
  | @call _ _ items _ _ _ _ hleft hnonempty _ hjoined hright ihcallee ihitems =>
    obtain ⟨callee, opens, hcallee⟩ := ihcallee
    have heach : ∀ part ∈ items.map (·.1), ∃ item opens,
        Greedily .argument part item opens ∧ .rparen ∉ opens ∧ .comma ∉ opens := by
      intro part hpart
      obtain ⟨item, hitem, rfl⟩ := List.mem_map.1 hpart
      obtain ⟨e', opens, n, h⟩ := ihitems item hitem
      exact ⟨e', opens, ⟨n, h⟩, h.notMem_opens (by decide), h.notMem_opens (by decide)⟩
    obtain ⟨arguments, hitems⟩ := hjoined.exists_items (by simpa using hnonempty) heach
    obtain ⟨n, hitems⟩ := hitems.exists_budget
    exact exists_greedily_call hleft (.some hitems) hright hcallee
  | argument _ ih =>
    obtain ⟨e', opens, n, h⟩ := ih
    exact (GreedyStep.argument h).exists_greedily rfl
  | paren hleft _ hright ih =>
    obtain ⟨e', opens, n, h⟩ := ih
    exact (GreedyStep.paren hleft h (h.notMem_opens (by decide)) hright).exists_greedily rfl
  | unit hleft hright => exact ⟨_, _, 1, GreedyStep.unit hleft hright⟩
  | int h => exact ⟨_, _, 1, GreedyStep.int h⟩
  | ident h => exact ⟨_, _, 1, GreedyStep.ident h⟩
  | trueWord h => exact ⟨_, _, 1, GreedyStep.bool (.inl h)⟩
  | falseWord h => exact ⟨_, _, 1, GreedyStep.bool (.inr h)⟩

end LetLang.Parser
