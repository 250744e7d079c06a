import Mathlib.Data.Set.Insert
import Mathlib.Tactic.SetLike
import LetLang.Proofs.Grammar
/-!
# Greedy derivations

The derivations in which each phrase takes all that it can: an `in` belongs to the nearest `let`
that is open to one, an `else` to the nearest `if`, and an operator or an argument list to the
phrase before it. A greedy derivation records the kinds that its phrase is still open to at its
right edge; what follows it begins with none of them. Its budget bounds how deep it nests.
-/
namespace LetLang.Parser

variable {α : Type}

/-- The text goes on with nothing that a phrase is open to; it goes on with something at all,
unless the phrase is open to nothing. -/
def Ended (opens : Set Kind) : List Token → Prop
  | [] => opens = ∅
  | token :: _ => token.kind ∉ opens

theorem ended_empty {rest : List Token} : Ended ∅ rest := by
  cases rest <;> simp [Ended]

theorem ended_cons {opens : Set Kind} {token : Token} {rest : List Token} :
    Ended opens (token :: rest) ↔ token.kind ∉ opens :=
  Iff.rfl

theorem ended_union {opens opens' : Set Kind} {rest : List Token} :
    Ended (opens ∪ opens') rest ↔ Ended opens rest ∧ Ended opens' rest := by
  cases rest with
  | nil => exact Set.union_empty_iff
  | cons token rest => simp [Ended]

theorem ended_insert {kind : Kind} {opens : Set Kind} {token : Token} {rest : List Token} :
    Ended (insert kind opens) (token :: rest) ↔
      token.kind ≠ kind ∧ Ended opens (token :: rest) := by
  simp [Ended]

/-- Operators and operands after `left`. -/
inductive Operations (R : List Token → Expr → Set Kind → Prop) (level : Level) :
    Expr → Set Kind → List Token → Expr → Set Kind → Prop
  | done {left opens} :
      Operations R level left opens [] left ({kind | (level.operator? kind).isSome} ∪ opens)
  | more {left opens} {operator : Token} {op p q right opens' e opens''}
      (hop : level.operator? operator.kind = some op) (hopens : operator.kind ∉ opens)
      (hright : R p right opens')
      (hrest : Operations R level (.binary op left right) opens' q e opens'') :
      Operations R level left opens (operator :: (p ++ q)) e opens''

/-- One item or more, with commas between them, before a token of kind `close`. -/
inductive Items (R : List Token → α → Set Kind → Prop) (close : Kind) :
    List Token → List α → Prop
  | single {p item opens} (hitem : R p item opens) (hopens : close ∉ opens) :
      Items R close p [item]
  | cons {p q item items opens} {comma : Token} (hitem : R p item opens)
      (hcomma : comma.kind = .comma) (hopens : .comma ∉ opens) (hrest : Items R close q items) :
      Items R close (p ++ comma :: q) (item :: items)

inductive Enclosed (R : List Token → α → Set Kind → Prop) (close : Kind) :
    List Token → List α → Prop
  | none : Enclosed R close [] []
  | some {p items} (h : Items R close p items) : Enclosed R close p items

/-- Argument lists after `callee`. -/
inductive Calls (R : List Token → Expr → Set Kind → Prop) : Expr → List Token → Expr → Prop
  | done {callee} : Calls R callee [] callee
  | more {left right : Token} {p q callee arguments e} (hleft : left.kind = .lparen)
      (harguments : Enclosed R .rparen p arguments) (hright : right.kind = .rparen)
      (hrest : Calls R (applied callee arguments) q e) :
      Calls R callee (left :: (p ++ right :: q)) e

/-- A name as a phrase. -/
inductive Name : List Token → String → Set Kind → Prop
  | mk {token : Token} (h : token.kind = .ident) : Name [token] token.text ∅

/-- The last step of a greedy derivation, over those of its parts. -/
inductive GreedyStep (R : Production → List Token → Expr → Set Kind → Prop) :
    Production → List Token → Expr → Set Kind → Prop
  | exprLet {p e opens} (h : R .letExpr p e opens) : GreedyStep R .expr p e opens
  | exprIf {p e opens} (h : R .ifExpr p e opens) : GreedyStep R .expr p e opens
  | exprFn {p e opens} (h : R .fnExpr p e opens) : GreedyStep R .expr p e opens
  | exprLogic {p e opens} (h : R (.infixed .logic) p e opens) : GreedyStep R .expr p e opens
  | define {word name eq : Token} {p bound opens} (hword : word.kind = .letWord)
      (hname : name.kind = .ident) (heq : eq.kind = .eq) (hbound : R .expr p bound opens) :
      GreedyStep R .letExpr (word :: name :: eq :: p) (.define name.text bound)
        (insert .inWord opens)
  | letIn {word name eq inWord : Token} {p q bound body opens opens'}
      (hword : word.kind = .letWord) (hname : name.kind = .ident) (heq : eq.kind = .eq)
      (hbound : R .expr p bound opens) (hopens : .inWord ∉ opens) (hin : inWord.kind = .inWord)
      (hbody : R .expr q body opens') :
      GreedyStep R .letExpr (word :: name :: eq :: (p ++ inWord :: q))
        (.letIn name.text bound body) opens'
  | ifThen {word thenWord : Token} {p q cond yes opens opens'} (hword : word.kind = .ifWord)
      (hcond : R .expr p cond opens) (hopens : .thenWord ∉ opens)
      (hthen : thenWord.kind = .thenWord) (hyes : R .expr q yes opens') :
      GreedyStep R .ifExpr (word :: (p ++ thenWord :: q)) (.ifThen cond yes)
        (insert .elseWord opens')
  | ifThenElse {word thenWord elseWord : Token} {p q r cond yes no opens opens' opens''}
      (hword : word.kind = .ifWord) (hcond : R .expr p cond opens) (hopens : .thenWord ∉ opens)
      (hthen : thenWord.kind = .thenWord) (hyes : R .expr q yes opens')
      (hopens' : .elseWord ∉ opens') (helse : elseWord.kind = .elseWord)
      (hno : R .expr r no opens'') :
      GreedyStep R .ifExpr (word :: (p ++ thenWord :: (q ++ elseWord :: r)))
        (.ifThenElse cond yes no) opens''
  | fn {left right arrow : Token} {params p q body opens} (hleft : left.kind = .vbar)
      (hparams : Enclosed Name .vbar p params) (hright : right.kind = .vbar)
      (harrow : arrow.kind = .arrow) (hbody : R .expr q body opens) :
      GreedyStep R .fnExpr (left :: (p ++ right :: arrow :: q)) (curried params body) opens
  | infixed {level p q left e opens opens'} (hleft : R level.operand p left opens)
      (hrest : Operations (R level.operand) level left opens q e opens') :
      GreedyStep R (.infixed level) (p ++ q) e opens'
  | unary {operator : Token} {op p e opens} (hop : unaryOperator? operator.kind = some op)
      (h : R .application p e opens) : GreedyStep R .unary (operator :: p) (.unary op e) opens
  | plain {p e opens} (h : R .application p e opens) : GreedyStep R .unary p e opens
  | application {p q callee e} (hcallee : R .primary p callee ∅)
      (hcalls : Calls (R .argument) callee q e) :
      GreedyStep R .application (p ++ q) e {.lparen}
  | argument {p e opens} (h : R .expr p e opens) : GreedyStep R .argument p e opens
  | paren {left right : Token} {p e opens} (hleft : left.kind = .lparen) (h : R .expr p e opens)
      (hopens : .rparen ∉ opens) (hright : right.kind = .rparen) :
      GreedyStep R .primary (left :: (p ++ [right])) e ∅
  | unit {left right : Token} (hleft : left.kind = .lparen) (hright : right.kind = .rparen) :
      GreedyStep R .primary [left, right] .unit ∅
  | int {token : Token} (h : token.kind = .int) :
      GreedyStep R .primary [token] (.int token.number) ∅
  | ident {token : Token} (h : token.kind = .ident) :
      GreedyStep R .primary [token] (.ident token.text) ∅
  | bool {token : Token} (h : token.kind = .trueWord ∨ token.kind = .falseWord) :
      GreedyStep R .primary [token] (.bool (token.kind = .trueWord)) ∅

/-- Greedy derivations within a budget of nested productions. -/
def Greedy : (budget : Nat) → Production → List Token → Expr → Set Kind → Prop
  | 0, _, _, _, _ => False
  | budget + 1, production, p, e, opens => GreedyStep (Greedy budget) production p e opens

variable {budget : Nat} {production : Production} {p : List Token} {e : Expr} {opens : Set Kind}

/-! ### More budget -/

section Imp

variable {R R' : List Token → α → Set Kind → Prop}

theorem Items.imp (hR : ∀ p a opens, R p a opens → R' p a opens) {close : Kind}
    {items : List α} (h : Items R close p items) : Items R' close p items := by
  induction h with
  | single hitem hopens => exact .single (hR _ _ _ hitem) hopens
  | cons hitem hcomma hopens _ ih => exact .cons (hR _ _ _ hitem) hcomma hopens ih

theorem Enclosed.imp (hR : ∀ p a opens, R p a opens → R' p a opens) {close : Kind}
    {items : List α} (h : Enclosed R close p items) : Enclosed R' close p items := by
  cases h with
  | none => exact .none
  | some h => exact .some (h.imp hR)

end Imp

section Imp

variable {R R' : List Token → Expr → Set Kind → Prop}

theorem Operations.imp (hR : ∀ p e opens, R p e opens → R' p e opens) {level : Level}
    {left : Expr} {opens' : Set Kind} (h : Operations R level left opens p e opens') :
    Operations R' level left opens p e opens' := by
  induction h with
  | done => exact .done
  | more hop hopens hright _ ih => exact .more hop hopens (hR _ _ _ hright) ih

theorem Calls.imp (hR : ∀ p e opens, R p e opens → R' p e opens) {callee : Expr}
    (h : Calls R callee p e) : Calls R' callee p e := by
  induction h with
  | done => exact .done
  | more hleft harguments hright _ ih => exact .more hleft (harguments.imp hR) hright ih

end Imp

theorem GreedyStep.imp {R R' : Production → List Token → Expr → Set Kind → Prop}
    (hR : ∀ production p e opens, R production p e opens → R' production p e opens)
    (h : GreedyStep R production p e opens) : GreedyStep R' production p e opens := by
  cases h with
  | exprLet h => exact .exprLet (hR _ _ _ _ h)
  | exprIf h => exact .exprIf (hR _ _ _ _ h)
  | exprFn h => exact .exprFn (hR _ _ _ _ h)
  | exprLogic h => exact .exprLogic (hR _ _ _ _ h)
  | define hword hname heq hbound => exact .define hword hname heq (hR _ _ _ _ hbound)
  | letIn hword hname heq hbound hopens hin hbody =>
    exact .letIn hword hname heq (hR _ _ _ _ hbound) hopens hin (hR _ _ _ _ hbody)
  | ifThen hword hcond hopens hthen hyes =>
    exact .ifThen hword (hR _ _ _ _ hcond) hopens hthen (hR _ _ _ _ hyes)
  | ifThenElse hword hcond hopens hthen hyes hopens' helse hno =>
    exact .ifThenElse hword (hR _ _ _ _ hcond) hopens hthen (hR _ _ _ _ hyes) hopens' helse
      (hR _ _ _ _ hno)
  | fn hleft hparams hright harrow hbody =>
    exact .fn hleft hparams hright harrow (hR _ _ _ _ hbody)
  | infixed hleft hrest => exact .infixed (hR _ _ _ _ hleft) (hrest.imp (hR _))
  | unary hop h => exact .unary hop (hR _ _ _ _ h)
  | plain h => exact .plain (hR _ _ _ _ h)
  | application hcallee hcalls => exact .application (hR _ _ _ _ hcallee) (hcalls.imp (hR _))
  | argument h => exact .argument (hR _ _ _ _ h)
  | paren hleft h hopens hright => exact .paren hleft (hR _ _ _ _ h) hopens hright
  | unit hleft hright => exact .unit hleft hright
  | int h => exact .int h
  | ident h => exact .ident h
  | bool h => exact .bool h

theorem Greedy.succ (h : Greedy budget production p e opens) :
    Greedy (budget + 1) production p e opens := by
  induction budget generalizing production p e opens with
  | zero => exact absurd h id
  | succ budget ih => exact GreedyStep.imp (fun _ _ _ _ => ih) h

theorem Greedy.mono {budget' : Nat} (hle : budget ≤ budget')
    (h : Greedy budget production p e opens) : Greedy budget' production p e opens := by
  induction hle with
  | refl => exact h
  | step _ ih => exact ih.succ

/-! ### Operators -/

theorem operator?_eq_some_iff {level : Level} {kind : Kind} {op : BinaryOp} :
    level.operator? kind = some op ↔ Spells level kind op := by
  constructor
  · intro h
    cases level <;> cases kind <;> simp only [Level.operator?, reduceCtorEq, Option.some.injEq] at h
      <;> subst h <;> constructor
  · intro h
    cases h <;> rfl

theorem unaryOperator?_eq_some_iff {kind : Kind} {op : UnaryOp} :
    unaryOperator? kind = some op ↔
      (kind = .notWord ∧ op = .not) ∨ (kind = .minus ∧ op = .negate) := by
  cases kind <;> simp [unaryOperator?, eq_comm]

theorem ne_eof_of_operator? {level : Level} {kind : Kind} {op : BinaryOp}
    (h : level.operator? kind = some op) : kind ≠ .eof := by
  rintro rfl
  cases level <;> cases h

theorem ne_eof_of_unaryOperator? {kind : Kind} {op : UnaryOp}
    (h : unaryOperator? kind = some op) : kind ≠ .eof := by
  rintro rfl
  cases h

/-! ### The edges of a phrase -/

/-- The kinds that a phrase can begin with. -/
def Production.starters : Production → List Kind
  | expr | argument => [.letWord, .ifWord, .vbar, .notWord, .minus] ++ primaryKinds
  | letExpr => [.letWord]
  | ifExpr => [.ifWord]
  | fnExpr => [.vbar]
  | infixed _ | unary => [.notWord, .minus] ++ primaryKinds
  | application | primary => primaryKinds

/-- The kinds that can go on with a phrase. -/
def Production.extenders : Production → List Kind
  | expr | letExpr | ifExpr | fnExpr | argument =>
    [.inWord, .elseWord, .andWord, .orWord, .eq, .lt, .gt, .plus, .minus, .star, .slash, .lparen]
  | infixed .logic =>
    [.andWord, .orWord, .eq, .lt, .gt, .plus, .minus, .star, .slash, .lparen]
  | infixed .comparison => [.eq, .lt, .gt, .plus, .minus, .star, .slash, .lparen]
  | infixed .sum => [.plus, .minus, .star, .slash, .lparen]
  | infixed .product => [.star, .slash, .lparen]
  | unary | application => [.lparen]
  | primary => []

theorem notMem_rparen_of_starters {kind : Kind} (h : kind ∈ Production.expr.starters) :
    kind ∉ [.rparen] := by
  revert h
  cases kind <;> decide

/-- The list begins with a token of one of the kinds. -/
def Begins (kinds : List Kind) (p : List Token) : Prop :=
  ∃ token q, p = token :: q ∧ token.kind ∈ kinds

theorem Begins.imp {kinds kinds' : List Kind} (h : Begins kinds p)
    (hsub : ∀ kind ∈ kinds, kind ∈ kinds') : Begins kinds' p := by
  obtain ⟨token, q, rfl, hkind⟩ := h
  exact ⟨token, q, rfl, hsub _ hkind⟩

theorem Begins.append {kinds : List Kind} (h : Begins kinds p) (q : List Token) :
    Begins kinds (p ++ q) := by
  obtain ⟨token, p, rfl, hkind⟩ := h
  exact ⟨token, p ++ q, rfl, hkind⟩

theorem begins_cons {kinds : List Kind} {token : Token} {q : List Token} :
    Begins kinds (token :: q) ↔ token.kind ∈ kinds := by
  simp [Begins]

theorem Name.begins {name : String} (h : Name p name opens) : Begins [.ident] p := by
  cases h with
  | mk h => simp [begins_cons, h]

theorem Items.begins {R : List Token → α → Set Kind → Prop} {kinds : List Kind}
    (hR : ∀ {p a opens}, R p a opens → Begins kinds p) {close : Kind} {items : List α}
    (h : Items R close p items) : Begins kinds p := by
  cases h with
  | single hitem _ => exact hR hitem
  | cons hitem _ _ _ => exact (hR hitem).append _

theorem Greedy.begins (h : Greedy budget production p e opens) :
    Begins production.starters p := by
  induction budget generalizing production p e opens with
  | zero => exact absurd h id
  | succ budget ih =>
    cases h with
    | exprLet h => exact (ih h).imp (by decide)
    | exprIf h => exact (ih h).imp (by decide)
    | exprFn h => exact (ih h).imp (by decide)
    | exprLogic h => exact (ih h).imp (by decide)
    | argument h => exact (ih h).imp (by decide)
    | infixed h _ => exact ((ih h).append _).imp (by cases ‹Level› <;> decide)
    | plain h => exact (ih h).imp (by decide)
    | unary hop _ =>
      rcases unaryOperator?_eq_some_iff.1 hop with ⟨h, -⟩ | ⟨h, -⟩ <;>
        simp [begins_cons, h, Production.starters]
    | application h _ => exact (ih h).append _
    | bool h => rcases h with h | h <;> simp [begins_cons, h, Production.starters, primaryKinds]
    | _ => simp [begins_cons, *, Production.starters, primaryKinds]

theorem Operations.mem_opens {R : List Token → Expr → Set Kind → Prop} {level : Level}
    {kind : Kind} {s : Set Kind} (hR : ∀ p e opens, R p e opens → kind ∈ opens → kind ∈ s)
    {left : Expr} {opens' : Set Kind} (h : Operations R level left opens p e opens')
    (hopens : kind ∈ opens → kind ∈ s) (hkind : kind ∈ opens') :
    (level.operator? kind).isSome ∨ kind ∈ s := by
  induction h with
  | done => exact hkind.imp id hopens
  | more _ _ hright _ ih => exact ih (hR _ _ _ hright) hkind

theorem Greedy.mem_extenders {kind : Kind} (h : Greedy budget production p e opens)
    (hkind : kind ∈ opens) : kind ∈ production.extenders := by
  induction budget generalizing production p e opens with
  | zero => exact absurd h id
  | succ budget ih =>
    cases h with
    | exprLet h | exprIf h | exprFn h | letIn _ _ _ _ _ _ h | ifThenElse _ _ _ _ _ _ _ h
    | fn _ _ _ _ h | argument h | plain h | unary _ h =>
      have hmem := ih h hkind
      exact hmem
    | exprLogic h =>
      have hmem := ih h hkind
      revert hmem
      cases kind <;> decide
    | define _ _ _ h =>
      rcases hkind with rfl | hkind
      · decide
      · have hmem := ih h hkind
        exact hmem
    | ifThen _ _ _ _ h =>
      rcases hkind with rfl | hkind
      · decide
      · have hmem := ih h hkind
        exact hmem
    | @infixed level _ _ _ _ _ _ h hrest =>
      have hmem := hrest.mem_opens (s := {kind | kind ∈ level.operand.extenders})
        (fun _ _ _ h => ih h) (ih h) hkind
      revert hmem
      cases level <;> cases kind <;> decide
    | application _ _ => simpa [Production.extenders] using hkind
    | _ => simp at hkind

theorem Greedy.notMem_opens {kind : Kind} (h : Greedy budget production p e opens)
    (hkind : kind ∉ production.extenders) : kind ∉ opens :=
  mt h.mem_extenders hkind

theorem Greedy.opens_primary (h : Greedy budget .primary p e opens) : opens = ∅ :=
  Set.eq_empty_of_forall_notMem fun _ => h.notMem_opens List.not_mem_nil

theorem Operations.mem_of_forall {R : List Token → Expr → Set Kind → Prop} {level : Level}
    {kind : Kind} (hR : ∀ p e opens, R p e opens → kind ∈ opens) {left : Expr}
    {opens' : Set Kind} (h : Operations R level left opens p e opens')
    (hopens : kind ∈ opens) : kind ∈ opens' := by
  induction h with
  | done => exact .inr hopens
  | more _ _ hright _ ih => exact ih (hR _ _ _ hright)

/-- Every phrase but a primary one goes on with an argument list. -/
theorem Greedy.lparen_mem_opens (h : Greedy budget production p e opens)
    (hproduction : production ≠ .primary) : .lparen ∈ opens := by
  induction budget generalizing production p e opens with
  | zero => exact absurd h id
  | succ budget ih =>
    cases h with
    | exprLet h | exprIf h | exprFn h | exprLogic h | letIn _ _ _ _ _ _ h
    | ifThenElse _ _ _ _ _ _ _ h | fn _ _ _ _ h | argument h | plain h | unary _ h =>
      exact ih h (by simp)
    | define _ _ _ h | ifThen _ _ _ _ h => exact .inr (ih h (by simp))
    | @infixed level _ _ _ _ _ _ h hrest =>
      have hlevel : level.operand ≠ .primary := by cases level <;> simp [Level.operand]
      exact hrest.mem_of_forall (fun _ _ _ h => ih h hlevel) (ih h hlevel)
    | application _ _ => rfl
    | _ => exact absurd rfl hproduction

theorem Spells.notMem_extenders {level : Level} {kind : Kind} {op : BinaryOp}
    (h : Spells level kind op) : kind ∉ level.operand.extenders := by
  cases h <;> decide

/-! ### Greedy derivations are derivations -/

theorem curried_map {names : List Token} (hnonempty : names ≠ []) (body : Expr) :
    curried (names.map (·.text)) body =
      names.foldr (fun name inner => .fn (some name.text) inner) body := by
  cases names with
  | nil => exact absurd rfl hnonempty
  | cons name names => simp [curried, List.foldr_map]

theorem applied_map {items : List (List Token × Expr)} (hnonempty : items ≠ []) (callee : Expr) :
    applied callee (items.map (·.2)) =
      items.foldl (fun callee item => .apply callee item.2) callee := by
  cases items with
  | nil => exact absurd rfl hnonempty
  | cons item items => simp [applied, List.foldl_map]

/-- Items with commas between them, as a list of what each of them is. -/
theorem Items.exists_list {ι : Type} {P : ι → Prop} (tokens : ι → List Token) (item : ι → α)
    {R : List Token → α → Set Kind → Prop}
    (hR : ∀ p a opens, R p a opens → ∃ i, P i ∧ tokens i = p ∧ item i = a) {close : Kind}
    {p : List Token} {items : List α} (h : Items R close p items) :
    ∃ is : List ι, is ≠ [] ∧ (∀ i ∈ is, P i) ∧ is.map item = items ∧
      CommaJoined (is.map tokens) p := by
  induction h with
  | single hitem _ =>
    obtain ⟨i, hi, rfl, rfl⟩ := hR _ _ _ hitem
    exact ⟨[i], by simp, by simpa using hi, rfl, .single⟩
  | cons hitem hcomma _ _ ih =>
    obtain ⟨i, hi, rfl, rfl⟩ := hR _ _ _ hitem
    obtain ⟨is, hnonempty, his, rfl, hjoined⟩ := ih
    cases is with
    | nil => exact absurd rfl hnonempty
    | cons j is =>
      exact ⟨i :: j :: is, by simp, List.forall_mem_cons.2 ⟨hi, his⟩, rfl, .cons hcomma hjoined⟩

theorem Operations.derives {R : List Token → Expr → Set Kind → Prop} {level : Level}
    (hR : ∀ p e opens, R p e opens → Derives level.operand p e) {left e : Expr}
    {opens opens' : Set Kind} {q : List Token} (h : Operations R level left opens q e opens')
    {p : List Token} (hleft : Derives (.infixed level) p left) :
    Derives (.infixed level) (p ++ q) e := by
  induction h generalizing p with
  | done => simpa using hleft
  | more hop _ hright _ ih =>
    have hone := hleft.operation (operator?_eq_some_iff.1 hop) (hR _ _ _ hright)
    simpa using ih hone

theorem Calls.derives {R : List Token → Expr → Set Kind → Prop}
    (hR : ∀ p e opens, R p e opens → Derives .argument p e) {callee e : Expr} {q : List Token}
    (h : Calls R callee q e) {p : List Token} (hcallee : Derives .application p callee) :
    Derives .application (p ++ q) e := by
  induction h generalizing p with
  | done => simpa using hcallee
  | more hleft harguments hright _ ih =>
    cases harguments with
    | none => simpa using ih (hcallee.callUnit hleft hright)
    | some hitems =>
      obtain ⟨items, hnonempty, heach, rfl, hjoined⟩ := hitems.exists_list
        (P := fun item : List Token × Expr => Derives .argument item.1 item.2) (·.1) (·.2)
        (fun p e opens h => ⟨(p, e), hR p e opens h, rfl, rfl⟩)
      rw [applied_map hnonempty] at ih
      simpa using ih (hcallee.call hleft hnonempty heach hjoined hright)

/-- What is derived greedily is derived. -/
theorem Greedy.derives (h : Greedy budget production p e opens) : Derives production p e := by
  induction budget generalizing production p e opens with
  | zero => exact absurd h id
  | succ budget ih =>
    cases h with
    | exprLet h => exact .exprLet (ih h)
    | exprIf h => exact .exprIf (ih h)
    | exprFn h => exact .exprFn (ih h)
    | exprLogic h => exact .exprLogic (ih h)
    | define hword hname heq hbound => exact .define hword hname heq (ih hbound)
    | letIn hword hname heq hbound _ hin hbody =>
      exact .letIn hword hname heq (ih hbound) hin (ih hbody)
    | ifThen hword hcond _ hthen hyes => exact .ifThen hword (ih hcond) hthen (ih hyes)
    | ifThenElse hword hcond _ hthen hyes _ helse hno =>
      exact .ifThenElse hword (ih hcond) hthen (ih hyes) helse (ih hno)
    | fn hleft hparams hright harrow hbody =>
      cases hparams with
      | none => exact .thunk hleft hright harrow (ih hbody)
      | some hitems =>
        obtain ⟨names, hnonempty, hnames, rfl, hjoined⟩ := hitems.exists_list
          (P := fun name : Token => name.kind = .ident) ([·]) (·.text)
          (fun _ _ _ h => by cases h with | @mk token hkind => exact ⟨token, hkind, rfl, rfl⟩)
        rw [curried_map hnonempty]
        exact .fn hleft hnonempty hnames hjoined hright harrow (ih hbody)
    | infixed hleft hrest => exact hrest.derives (fun _ _ _ => ih) (.operand (ih hleft))
    | unary hop h =>
      rcases unaryOperator?_eq_some_iff.1 hop with ⟨hword, rfl⟩ | ⟨hsign, rfl⟩
      · exact .not hword (ih h)
      · exact .negate hsign (ih h)
    | plain h => exact .plain (ih h)
    | application hcallee hcalls => exact hcalls.derives (fun _ _ _ => ih) (.callee (ih hcallee))
    | argument h => exact .argument (ih h)
    | paren hleft h _ hright => exact .paren hleft (ih h) hright
    | unit hleft hright => exact .unit hleft hright
    | int h => exact .int h
    | ident h => exact .ident h
    | bool h =>
      rcases h with h | h
      · simpa [h] using Derives.trueWord h
      · simpa [h] using Derives.falseWord h

end LetLang.Parser
