import LetLang.Proofs.Budget
import LetLang.Proofs.Lexing.Fragments
import LetLang.Proofs.Parsing.Completeness
/-!
# The source of a tree

Every tree that an expression could be read as has a source, in which each part of an expression is
in parentheses. Reading the source gives the tree again.
-/
namespace LetLang

namespace Expr

/-- The text of an expression with parentheses around all of its parts. -/
def source : Expr → String
  | unit => "()"
  | int n => Numeral.text n
  | bool b => if b then "true" else "false"
  | ident name => name
  | binary op left right =>
    "(" ++ left.source ++ ") " ++ op.text ++ " (" ++ right.source ++ ")"
  | unary op operand => op.text ++ " (" ++ operand.source ++ ")"
  | define name bound => "let " ++ name ++ " = (" ++ bound.source ++ ")"
  | letIn name bound body =>
    "let " ++ name ++ " = (" ++ bound.source ++ ") in (" ++ body.source ++ ")"
  | ifThen cond yes => "if (" ++ cond.source ++ ") then (" ++ yes.source ++ ")"
  | ifThenElse cond yes no =>
    "if (" ++ cond.source ++ ") then (" ++ yes.source ++ ") else (" ++ no.source ++ ")"
  | fn none body => "|| => (" ++ body.source ++ ")"
  | fn (some param) body => "|" ++ param ++ "| => (" ++ body.source ++ ")"
  | apply callee argument => "(" ++ callee.source ++ ")(" ++ argument.source ++ ")"
  | datum _ => ""

/-- The text is an identifier and no keyword. -/
def IsName (name : String) : Prop :=
  name.toList ∈ Kind.ident.language ∧ ∀ kind : Kind, kind.fixedText ≠ some name

/-- The numbers of the expression have numerals, and its names are such. -/
def Spellable : Expr → Prop
  | unit | bool _ => True
  | int n => 0 ≤ n ∧ ¬ Numeral.TooLong n
  | ident name => IsName name
  | binary _ left right => left.Spellable ∧ right.Spellable
  | unary _ operand => operand.Spellable
  | define name bound => IsName name ∧ bound.Spellable
  | letIn name bound body => IsName name ∧ bound.Spellable ∧ body.Spellable
  | ifThen cond yes => cond.Spellable ∧ yes.Spellable
  | ifThenElse cond yes no => cond.Spellable ∧ yes.Spellable ∧ no.Spellable
  | fn param body => (∀ name ∈ param, IsName name) ∧ body.Spellable
  | apply callee argument => callee.Spellable ∧ argument.Spellable
  | datum _ => False

end Expr

namespace Parser

open Lexer

/-! ### Derivations of phrases in parentheses -/

section Derivations

variable {budget budget' : Nat} {p : List Token} {e : Expr} {opens : Set Kind}

/-- The phrases that are derived greedily as the tree, within a budget. -/
def phrases (budget : Nat) (e : Expr) : Language Token :=
  {p | ∃ opens, Greedy budget .expr p e opens}

/-- The phrases in parentheses. -/
def wrapped (budget : Nat) (e : Expr) : Language Token :=
  spelling .lparen "(" * (phrases budget e * spelling .rparen ")")

theorem phrases_mono (h : budget ≤ budget') : phrases budget e ≤ phrases budget' e := by
  rintro p ⟨opens, hp⟩
  exact ⟨opens, hp.mono h⟩

theorem Greedy.infixed_of_operand (level : Level) (h : Greedy budget level.operand p e opens) :
    ∃ opens', Greedy (budget + 1) (.infixed level) p e opens' := by
  have hstep := GreedyStep.infixed h .done
  rw [List.append_nil] at hstep
  exact ⟨_, hstep⟩

/-- A phrase of a level is one of every looser level. -/
theorem Greedy.logic_of_infixed {level : Level} (h : Greedy budget (.infixed level) p e opens) :
    ∃ opens', Greedy (budget + 3) (.infixed .logic) p e opens' := by
  cases level with
  | logic => exact ⟨opens, h.mono (by omega)⟩
  | comparison =>
    obtain ⟨opens₁, h⟩ := infixed_of_operand .logic h
    exact ⟨opens₁, h.mono (by omega)⟩
  | sum =>
    obtain ⟨opens₁, h⟩ := infixed_of_operand .comparison h
    obtain ⟨opens₂, h⟩ := infixed_of_operand .logic h
    exact ⟨opens₂, h.mono (by omega)⟩
  | product =>
    obtain ⟨opens₁, h⟩ := infixed_of_operand .sum h
    obtain ⟨opens₂, h⟩ := infixed_of_operand .comparison h
    exact infixed_of_operand .logic h

theorem Greedy.operand_of_unary (h : Greedy budget .unary p e opens) (level : Level) :
    ∃ opens', Greedy (budget + 3) level.operand p e opens' := by
  obtain ⟨opens₁, hproduct⟩ := infixed_of_operand .product h
  obtain ⟨opens₂, hsum⟩ := infixed_of_operand .sum hproduct
  obtain ⟨opens₃, hcomparison⟩ := infixed_of_operand .comparison hsum
  cases level with
  | logic => exact ⟨opens₃, hcomparison⟩
  | comparison => exact ⟨opens₂, hsum.mono (by omega)⟩
  | sum => exact ⟨opens₁, hproduct.mono (by omega)⟩
  | product => exact ⟨opens, h.mono (by omega)⟩

theorem Greedy.application_of_primary (h : Greedy budget .primary p e ∅) :
    Greedy (budget + 1) .application p e {.lparen} := by
  have hstep := GreedyStep.application h .done
  rwa [List.append_nil] at hstep

/-- An expression that begins with no word of its own takes no `in` and no `else`. -/
theorem Greedy.expr_of_unary (h : Greedy budget .unary p e opens) :
    ∃ opens', Greedy (budget + 5) .expr p e opens' ∧ .inWord ∉ opens' ∧ .elseWord ∉ opens' := by
  obtain ⟨opens₁, h⟩ := h.operand_of_unary .logic
  obtain ⟨opens₂, h⟩ := infixed_of_operand .logic h
  exact ⟨opens₂, .exprLogic h, h.notMem_opens (by decide), h.notMem_opens (by decide)⟩

theorem mem_phrases_of_primary (h : Greedy budget .primary p e ∅) : p ∈ phrases (budget + 7) e := by
  have happlication := h.application_of_primary
  have hunary : Greedy (budget + 2) .unary p e {.lparen} := .plain happlication
  obtain ⟨opens, hexpr, -⟩ := hunary.expr_of_unary
  exact ⟨opens, hexpr⟩

theorem mem_wrapped (h : p ∈ wrapped budget e) :
    ∃ left q right opens, p = left :: (q ++ [right]) ∧ left.kind = .lparen ∧
      Greedy budget .expr q e opens ∧ .rparen ∉ opens ∧ right.kind = .rparen := by
  obtain ⟨i, _, hinner, rfl⟩ := mem_spelling_mul.1 h
  obtain ⟨q, ⟨opens, hq⟩, _, ⟨j, rfl⟩, rfl⟩ := Language.mem_mul.1 hinner
  exact ⟨_, q, _, opens, rfl, rfl, hq, hq.notMem_opens (by decide), rfl⟩

theorem greedy_application_of_wrapped (h : p ∈ wrapped budget e) :
    Greedy (budget + 2) .application p e {.lparen} := by
  obtain ⟨left, q, right, opens, rfl, hleft, hq, hopens, hright⟩ := mem_wrapped h
  have hprimary : Greedy (budget + 1) .primary (left :: (q ++ [right])) e ∅ :=
    .paren hleft hq hopens hright
  exact hprimary.application_of_primary

theorem greedy_expr_of_wrapped (h : p ∈ wrapped budget e) :
    ∃ opens, Greedy (budget + 8) .expr p e opens ∧ .inWord ∉ opens ∧ .elseWord ∉ opens := by
  have hunary : Greedy (budget + 3) .unary p e {.lparen} :=
    .plain (greedy_application_of_wrapped h)
  exact hunary.expr_of_unary

/-! ### One phrase for each kind of tree -/

variable {left right operand bound body cond yes no callee argument : Expr} {text name : String}

theorem binary_le {level : Level} {kind : Kind} {op : BinaryOp}
    (hop : level.operator? kind = some op) :
    wrapped budget left * (spelling kind text * wrapped budget right) ≤
      phrases (budget + 11) (.binary op left right) := by
  intro ts h
  obtain ⟨p, hp, _, hrest, rfl⟩ := Language.mem_mul.1 h
  obtain ⟨i, q, hq, rfl⟩ := mem_spelling_mul.1 hrest
  have hleft : Greedy (budget + 3) .unary p left {.lparen} :=
    .plain (greedy_application_of_wrapped hp)
  have hright : Greedy (budget + 3) .unary q right {.lparen} :=
    .plain (greedy_application_of_wrapped hq)
  obtain ⟨opens, hleft⟩ := hleft.operand_of_unary level
  obtain ⟨opens', hright⟩ := hright.operand_of_unary level
  have hopens : kind ∉ opens :=
    hleft.notMem_opens (operator?_eq_some_iff.1 hop).notMem_extenders
  have hstep : GreedyStep (Greedy (budget + 6)) (.infixed level)
      (p ++ { kind, text, pos := i } :: (q ++ [])) (.binary op left right) _ :=
    .infixed hleft (.more hop hopens hright .done)
  rw [List.append_nil] at hstep
  obtain ⟨opens'', hlogic⟩ := @Greedy.logic_of_infixed (budget + 7) _ _ _ _ hstep
  exact ⟨opens'', .exprLogic hlogic⟩

theorem unary_le {kind : Kind} {op : UnaryOp} (hop : unaryOperator? kind = some op) :
    spelling kind text * wrapped budget operand ≤ phrases (budget + 8) (.unary op operand) := by
  intro ts h
  obtain ⟨i, p, hp, rfl⟩ := mem_spelling_mul.1 h
  have hunary : Greedy (budget + 3) .unary ({ kind, text, pos := i } :: p) (.unary op operand) _ :=
    .unary hop (greedy_application_of_wrapped hp)
  obtain ⟨opens, hexpr, -⟩ := hunary.expr_of_unary
  exact ⟨opens, hexpr⟩

theorem define_le :
    spelling .letWord "let" * (spelling .ident name * (spelling .eq "=" * wrapped budget bound)) ≤
      phrases (budget + 10) (.define name bound) := by
  intro ts h
  obtain ⟨i, _, h₁, rfl⟩ := mem_spelling_mul.1 h
  obtain ⟨j, _, h₂, rfl⟩ := mem_spelling_mul.1 h₁
  obtain ⟨k, p, hp, rfl⟩ := mem_spelling_mul.1 h₂
  obtain ⟨opens, hbound, -⟩ := greedy_expr_of_wrapped hp
  exact ⟨_, .exprLet (.define rfl rfl rfl hbound)⟩

theorem letIn_le :
    spelling .letWord "let" * (spelling .ident name * (spelling .eq "=" * (wrapped budget bound *
      (spelling .inWord "in" * wrapped budget body)))) ≤
      phrases (budget + 10) (.letIn name bound body) := by
  intro ts h
  obtain ⟨i, _, h₁, rfl⟩ := mem_spelling_mul.1 h
  obtain ⟨j, _, h₂, rfl⟩ := mem_spelling_mul.1 h₁
  obtain ⟨k, _, h₃, rfl⟩ := mem_spelling_mul.1 h₂
  obtain ⟨p, hp, _, h₄, rfl⟩ := Language.mem_mul.1 h₃
  obtain ⟨l, q, hq, rfl⟩ := mem_spelling_mul.1 h₄
  obtain ⟨opens, hbound, hin, -⟩ := greedy_expr_of_wrapped hp
  obtain ⟨opens', hbody, -⟩ := greedy_expr_of_wrapped hq
  exact ⟨_, .exprLet (.letIn rfl rfl rfl hbound hin rfl hbody)⟩

theorem ifThen_le :
    spelling .ifWord "if" * (wrapped budget cond *
      (spelling .thenWord "then" * wrapped budget yes)) ≤
      phrases (budget + 10) (.ifThen cond yes) := by
  intro ts h
  obtain ⟨i, _, h₁, rfl⟩ := mem_spelling_mul.1 h
  obtain ⟨p, hp, _, h₂, rfl⟩ := Language.mem_mul.1 h₁
  obtain ⟨j, q, hq, rfl⟩ := mem_spelling_mul.1 h₂
  obtain ⟨opens, hcond, -⟩ := greedy_expr_of_wrapped hp
  obtain ⟨opens', hyes, -⟩ := greedy_expr_of_wrapped hq
  exact ⟨_, .exprIf (.ifThen rfl hcond (hcond.notMem_opens (by decide)) rfl hyes)⟩

theorem ifThenElse_le :
    spelling .ifWord "if" * (wrapped budget cond *
      (spelling .thenWord "then" * (wrapped budget yes *
        (spelling .elseWord "else" * wrapped budget no)))) ≤
      phrases (budget + 10) (.ifThenElse cond yes no) := by
  intro ts h
  obtain ⟨i, _, h₁, rfl⟩ := mem_spelling_mul.1 h
  obtain ⟨p, hp, _, h₂, rfl⟩ := Language.mem_mul.1 h₁
  obtain ⟨j, _, h₃, rfl⟩ := mem_spelling_mul.1 h₂
  obtain ⟨q, hq, _, h₄, rfl⟩ := Language.mem_mul.1 h₃
  obtain ⟨k, r, hr, rfl⟩ := mem_spelling_mul.1 h₄
  obtain ⟨opens, hcond, -⟩ := greedy_expr_of_wrapped hp
  obtain ⟨opens', hyes, -, helse⟩ := greedy_expr_of_wrapped hq
  obtain ⟨opens'', hno, -⟩ := greedy_expr_of_wrapped hr
  exact ⟨_, .exprIf (.ifThenElse rfl hcond (hcond.notMem_opens (by decide)) rfl hyes helse rfl hno)⟩

theorem thunk_le :
    spelling .vbar "|" * (spelling .vbar "|" * (spelling .arrow "=>" * wrapped budget body)) ≤
      phrases (budget + 10) (.fn none body) := by
  intro ts h
  obtain ⟨i, _, h₁, rfl⟩ := mem_spelling_mul.1 h
  obtain ⟨j, _, h₂, rfl⟩ := mem_spelling_mul.1 h₁
  obtain ⟨k, p, hp, rfl⟩ := mem_spelling_mul.1 h₂
  obtain ⟨opens, hbody, -⟩ := greedy_expr_of_wrapped hp
  have hparams : Enclosed Name .vbar [] [] := .none
  exact ⟨_, .exprFn (@GreedyStep.fn _ { kind := .vbar, text := "|", pos := i }
    { kind := .vbar, text := "|", pos := j } { kind := .arrow, text := "=>", pos := k }
    _ _ p body opens rfl hparams rfl rfl hbody)⟩

theorem fn_le :
    spelling .vbar "|" * (spelling .ident name * (spelling .vbar "|" *
      (spelling .arrow "=>" * wrapped budget body))) ≤
      phrases (budget + 10) (.fn (some name) body) := by
  intro ts h
  obtain ⟨i, _, h₁, rfl⟩ := mem_spelling_mul.1 h
  obtain ⟨j, _, h₂, rfl⟩ := mem_spelling_mul.1 h₁
  obtain ⟨k, _, h₃, rfl⟩ := mem_spelling_mul.1 h₂
  obtain ⟨l, p, hp, rfl⟩ := mem_spelling_mul.1 h₃
  obtain ⟨opens, hbody, -⟩ := greedy_expr_of_wrapped hp
  have hparam : Enclosed Name .vbar [{ kind := .ident, text := name, pos := j }] [name] :=
    .some (.single (.mk rfl) (by simp))
  exact ⟨_, .exprFn (.fn rfl hparam rfl rfl hbody)⟩

theorem apply_le :
    wrapped budget callee * wrapped budget argument ≤
      phrases (budget + 9) (.apply callee argument) := by
  intro ts h
  obtain ⟨p, hp, _, hq, rfl⟩ := Language.mem_mul.1 h
  obtain ⟨left, q, right, opens, rfl, hleft, hq, hopens, hright⟩ := mem_wrapped hq
  obtain ⟨left', p, right', opens', rfl, hleft', hp, hopens', hright'⟩ := mem_wrapped hp
  have hcallee : Greedy (budget + 1) .primary (left' :: (p ++ [right'])) callee ∅ :=
    .paren hleft' hp hopens' hright'
  have hargument : Greedy (budget + 1) .argument q argument opens := .argument hq
  have hcalls : Calls (Greedy (budget + 1) .argument) callee (left :: (q ++ [right]))
      (.apply callee argument) :=
    .more hleft (.some (.single hargument hopens)) hright .done
  have hunary : Greedy (budget + 3) .unary _ (.apply callee argument) {.lparen} :=
    .plain (.application hcallee hcalls)
  obtain ⟨opens'', hexpr, -⟩ := hunary.expr_of_unary
  exact ⟨opens'', hexpr.mono (by omega)⟩

end Derivations

/-! ### Texts in parentheses -/

variable {e : Expr} {name : String} {gap : List Char}

def wrappedText (gap : List Char) (e : Expr) : List Char :=
  gap ++ "(".toList ++ (e.source.toList ++ ([] ++ ")".toList))

/-- The source of the tree is read as a phrase of it, between parentheses and also by itself. -/
def Returns (budget : Nat) (e : Expr) : Prop :=
  Fragment false e.source.toList (phrases budget e)

theorem Returns.wrapped {budget budget' : Nat} (h : Returns budget e) (hle : budget ≤ budget')
    (hgap : Continues gap) : Fragment true (wrappedText gap e) (wrapped budget' e) := by
  have hleft : Fragment true (gap ++ "(".toList) (spelling .lparen "(") :=
    .barrier rfl rfl rfl hgap
  have hright : Fragment true ([] ++ ")".toList) (spelling .rparen ")") :=
    .barrier rfl rfl rfl continues_nil
  have hinner : Fragment false e.source.toList (phrases budget' e) := h.imp (phrases_mono hle)
  exact hleft.append (hinner.append hright fun _ => rfl) (by simp)

/-- A text that is made of the parts of the source. -/
theorem returns_of_fragment {closed : Bool} {budget : Nat} {text : List Char}
    {tokens : Language Token} (h : Fragment closed text tokens) (htext : e.source.toList = text)
    (hle : tokens ≤ phrases budget e) : Returns budget e := by
  rw [Returns, htext]
  exact h.unclosed.imp hle

theorem fragment_name (h : Expr.IsName name) (hgap : Continues gap) :
    Fragment false (gap ++ name.toList) (spelling .ident name) :=
  .lexeme ⟨.ident, name, .inr (.inr ⟨rfl, h⟩)⟩ hgap (by simp)

theorem repr_mem_language (n : Nat) : (Nat.repr n).toList ∈ Kind.int.language := by
  rw [Kind.mem_language_int]
  rcases Nat.eq_zero_or_pos n with rfl | hpos
  · exact .inl rfl
  · obtain ⟨c, rest, htext, hc⟩ := Numeral.exists_repr_eq_cons hpos
    have hdigits : ∀ d ∈ c :: rest, Numeral.isDigit d = true :=
      fun d hd => Numeral.isDigit_of_mem_repr (htext ▸ hd)
    rw [List.forall_mem_cons] at hdigits
    exact .inr ⟨c, rest, htext, hc, hdigits⟩

theorem fragment_numeral {n : Nat} (h : ¬ Numeral.TooLong n) :
    Fragment false (Nat.repr n).toList (spelling .int (Nat.repr n)) :=
  .lexeme ⟨.int, Nat.repr n, .inr (.inl ⟨rfl, repr_mem_language n, Numeral.length_repr_le h⟩)⟩
    continues_nil (by simp)

/-- A number that is not too long has a numeral, and it is the one of this number. -/
theorem returns_int {n : Nat} (h : ¬ Numeral.TooLong n) : Returns 8 (.int n) := by
  refine returns_of_fragment (fragment_numeral h) (by simp [Expr.source]) ?_
  rintro _ ⟨i, rfl⟩
  have hprimary : Greedy 1 .primary [{ kind := .int, text := Nat.repr n, pos := i }] _ ∅ := .int rfl
  rw [Token.number, Numeral.value_repr] at hprimary
  exact mem_phrases_of_primary hprimary

/-- The text of an operator is the one of a token that is read as the operator. -/
theorem exists_level (op : BinaryOp) :
    ∃ (level : Level) (kind : Kind),
      level.operator? kind = some op ∧ kind.fixedText = some op.text := by
  cases op with
  | add => exact ⟨.sum, .plus, rfl, rfl⟩
  | sub => exact ⟨.sum, .minus, rfl, rfl⟩
  | mul => exact ⟨.product, .star, rfl, rfl⟩
  | div => exact ⟨.product, .slash, rfl, rfl⟩
  | eq => exact ⟨.comparison, .eq, rfl, rfl⟩
  | lt => exact ⟨.comparison, .lt, rfl, rfl⟩
  | gt => exact ⟨.comparison, .gt, rfl, rfl⟩
  | and => exact ⟨.logic, .andWord, rfl, rfl⟩
  | or => exact ⟨.logic, .orWord, rfl, rfl⟩

theorem exists_unaryOperator (op : UnaryOp) :
    ∃ kind : Kind, unaryOperator? kind = some op ∧ kind.fixedText = some op.text := by
  cases op with
  | not => exact ⟨.notWord, rfl, rfl⟩
  | negate => exact ⟨.minus, rfl, rfl⟩

theorem returns_unit : Returns 8 .unit := by
  have hleft : Fragment true ([] ++ "(".toList) (spelling .lparen "(") :=
    .barrier rfl rfl rfl continues_nil
  have hright : Fragment true ([] ++ ")".toList) (spelling .rparen ")") :=
    .barrier rfl rfl rfl continues_nil
  refine returns_of_fragment (hleft.append hright (by simp)) rfl ?_
  rintro _ ⟨_, ⟨i, rfl⟩, _, ⟨j, rfl⟩, rfl⟩
  have hprimary : Greedy 1 .primary [{ kind := .lparen, text := "(", pos := i },
      { kind := .rparen, text := ")", pos := j }] .unit ∅ := .unit rfl rfl
  exact mem_phrases_of_primary hprimary

theorem returns_bool (b : Bool) : Returns 8 (.bool b) := by
  cases b with
  | false =>
    refine returns_of_fragment (.fixed .falseWord rfl continues_nil) rfl ?_
    rintro _ ⟨i, rfl⟩
    have hprimary : Greedy 1 .primary [{ kind := .falseWord, text := "false", pos := i }]
        (.bool false) ∅ := .bool (.inr rfl)
    exact mem_phrases_of_primary hprimary
  | true =>
    refine returns_of_fragment (.fixed .trueWord rfl continues_nil) rfl ?_
    rintro _ ⟨i, rfl⟩
    have hprimary : Greedy 1 .primary [{ kind := .trueWord, text := "true", pos := i }]
        (.bool true) ∅ := .bool (.inl rfl)
    exact mem_phrases_of_primary hprimary

theorem returns_ident (h : Expr.IsName name) : Returns 8 (.ident name) := by
  refine returns_of_fragment (fragment_name h continues_nil) rfl ?_
  rintro _ ⟨i, rfl⟩
  have hprimary : Greedy 1 .primary [{ kind := .ident, text := name, pos := i }] _ ∅ := .ident rfl
  exact mem_phrases_of_primary hprimary

/-- The source of a tree is read as a phrase of it. -/
theorem exists_returns (he : e.Spellable) : ∃ budget, Returns budget e := by
  induction e with
  | unit => exact ⟨8, returns_unit⟩
  | int n =>
    obtain ⟨n, rfl⟩ := Int.eq_ofNat_of_zero_le he.1
    exact ⟨8, returns_int he.2⟩
  | bool b => exact ⟨8, returns_bool b⟩
  | ident name => exact ⟨8, returns_ident he⟩
  | binary op left right ihleft ihright =>
    obtain ⟨n, hleft⟩ := ihleft he.1
    obtain ⟨m, hright⟩ := ihright he.2
    obtain ⟨level, kind, hop, hkind⟩ := exists_level op
    have hleft := hleft.wrapped (Nat.le_max_left n m) continues_nil
    have hright := hright.wrapped (Nat.le_max_right n m) continues_blank
    have hop' := (Fragment.fixed kind hkind continues_blank).append hright fun _ => rfl
    exact ⟨_, returns_of_fragment (hleft.append hop' (by simp))
      (by simp [Expr.source, wrappedText]) (binary_le hop)⟩
  | unary op operand ih =>
    obtain ⟨n, hoperand⟩ := ih he
    obtain ⟨kind, hop, hkind⟩ := exists_unaryOperator op
    have hoperand := hoperand.wrapped (Nat.le_refl n) continues_blank
    have htext := (Fragment.fixed kind hkind continues_nil).append hoperand fun _ => rfl
    exact ⟨_, returns_of_fragment htext (by simp [Expr.source, wrappedText]) (unary_le hop)⟩
  | define name bound ih =>
    obtain ⟨n, hbound⟩ := ih he.2
    have hbound := hbound.wrapped (Nat.le_refl n) continues_blank
    have heq := (Fragment.fixed .eq rfl continues_blank).append hbound fun _ => rfl
    have hname := (fragment_name he.1 continues_blank).append heq fun _ => rfl
    have hlet := (Fragment.fixed .letWord rfl continues_nil).append hname fun _ => rfl
    exact ⟨_, returns_of_fragment hlet (by simp [Expr.source, wrappedText]) define_le⟩
  | letIn name bound body ihbound ihbody =>
    obtain ⟨n, hbound⟩ := ihbound he.2.1
    obtain ⟨m, hbody⟩ := ihbody he.2.2
    have hbound := hbound.wrapped (Nat.le_max_left n m) continues_blank
    have hbody := hbody.wrapped (Nat.le_max_right n m) continues_blank
    have hin := (Fragment.fixed .inWord rfl continues_blank).append hbody fun _ => rfl
    have heq := (Fragment.fixed .eq rfl continues_blank).append
      (hbound.append hin (by simp)) fun _ => rfl
    have hname := (fragment_name he.1 continues_blank).append heq fun _ => rfl
    have hlet := (Fragment.fixed .letWord rfl continues_nil).append hname fun _ => rfl
    exact ⟨_, returns_of_fragment hlet (by simp [Expr.source, wrappedText]) letIn_le⟩
  | ifThen cond yes ihcond ihyes =>
    obtain ⟨n, hcond⟩ := ihcond he.1
    obtain ⟨m, hyes⟩ := ihyes he.2
    have hcond := hcond.wrapped (Nat.le_max_left n m) continues_blank
    have hyes := hyes.wrapped (Nat.le_max_right n m) continues_blank
    have hthen := (Fragment.fixed .thenWord rfl continues_blank).append hyes fun _ => rfl
    have hif := (Fragment.fixed .ifWord rfl continues_nil).append
      (hcond.append hthen (by simp)) fun _ => rfl
    exact ⟨_, returns_of_fragment hif (by simp [Expr.source, wrappedText]) ifThen_le⟩
  | ifThenElse cond yes no ihcond ihyes ihno =>
    obtain ⟨n, hcond⟩ := ihcond he.1
    obtain ⟨m, hyes⟩ := ihyes he.2.1
    obtain ⟨k, hno⟩ := ihno he.2.2
    have hcond := hcond.wrapped (Nat.le_max_left n (max m k)) continues_blank
    have hyes := hyes.wrapped (show m ≤ max n (max m k) by omega) continues_blank
    have hno := hno.wrapped (show k ≤ max n (max m k) by omega) continues_blank
    have helse := (Fragment.fixed .elseWord rfl continues_blank).append hno fun _ => rfl
    have hthen := (Fragment.fixed .thenWord rfl continues_blank).append
      (hyes.append helse (by simp)) fun _ => rfl
    have hif := (Fragment.fixed .ifWord rfl continues_nil).append
      (hcond.append hthen (by simp)) fun _ => rfl
    exact ⟨_, returns_of_fragment hif (by simp [Expr.source, wrappedText]) ifThenElse_le⟩
  | fn param body ih =>
    obtain ⟨n, hbody⟩ := ih he.2
    have hbody := hbody.wrapped (Nat.le_refl n) continues_blank
    have harrow := (Fragment.fixed .arrow rfl continues_blank).append hbody fun _ => rfl
    have hbar : Fragment true ([] ++ "|".toList) (spelling .vbar "|") :=
      .barrier rfl rfl rfl continues_nil
    have hright := hbar.append harrow (by simp)
    cases param with
    | none =>
      exact ⟨_, returns_of_fragment (hbar.append hright (by simp))
        (by simp [Expr.source, wrappedText]) thunk_le⟩
    | some param =>
      have hparam := (fragment_name (he.1 param rfl) continues_nil).append hright fun _ => rfl
      exact ⟨_, returns_of_fragment (hbar.append hparam (by simp))
        (by simp [Expr.source, wrappedText]) fn_le⟩
  | apply callee argument ihcallee ihargument =>
    obtain ⟨n, hcallee⟩ := ihcallee he.1
    obtain ⟨m, hargument⟩ := ihargument he.2
    have hcallee := hcallee.wrapped (Nat.le_max_left n m) continues_nil
    have hargument := hargument.wrapped (Nat.le_max_right n m) continues_nil
    exact ⟨_, returns_of_fragment (hcallee.append hargument (by simp))
      (by simp [Expr.source, wrappedText]) apply_le⟩
  | datum value => exact he.elim

/-! ### Reading a source -/

/-- A text that is read as a phrase holds it and nothing else, and all of it is taken. -/
theorem exists_takes_of_fragment {budget : Nat} {text : String}
    (h : Fragment false text.toList (phrases budget e)) :
    ∃ p opens last, (TokenStream.ofText text).pending = p ++ [last] ∧ last.kind = .eof ∧
      Greedy budget .expr p e opens ∧ Takes (parseNext budget) p (e, false) [last] := by
  obtain ⟨ts, hts, hsplits⟩ := h [] _ (by simp) reads_nil 0
  rw [List.append_nil] at hsplits
  obtain ⟨p, ⟨opens, hp⟩, _, ⟨pos, rfl⟩, rfl⟩ := Language.mem_mul.1 hts
  have hpending :
      (TokenStream.ofText text).pending = p ++ [{ kind := .eof, text := "", pos }] := by
    rw [TokenStream.ofText, tokenize, hsplits.tokensFrom_eq]
    rfl
  have hopens : .eof ∉ opens := hp.notMem_opens (by decide)
  have hended : Ended opens [{ kind := .eof, text := "", pos }] := hopens
  have hread := read_complete budget .expr hp hended
  have hend : Takes TokenStream.atEnd [] true [{ kind := .eof, text := "", pos }] :=
    takes_nextIs_of_mem (by simp)
  exact ⟨p, opens, _, hpending, rfl, hp, hread.bind_look (hend.look_bind takes_pure)⟩

theorem parseNext_of_returns {budget : Nat} (h : Returns budget e) :
    (outcome (parseNext budget) (TokenStream.ofText e.source)).1 = .ok (e, false) := by
  obtain ⟨p, opens, last, hpending, -, -, hall⟩ := exists_takes_of_fragment h
  obtain ⟨s', hparse, -⟩ := hall _ hpending
  exact congrArg Prod.fst hparse

theorem parseNext_prolongs {budget larger : Nat} (h : budget ≤ larger) :
    Prolongs (parseNext larger) (parseNext budget) :=
  (read_prolongs h .expr).bind fun _ => Prolongs.refl _

/-- Reading the source of a tree gives the tree, and there is nothing after it, whatever the budget
is, unless the budget is spent; a budget that is large enough is not. -/
theorem parseNext_source (e : Expr) (he : e.Spellable) :
    (∀ budget, RanOut (outcome (parseNext budget) (TokenStream.ofText e.source)).1 ∨
      (outcome (parseNext budget) (TokenStream.ofText e.source)).1 = .ok (e, false)) ∧
    ∃ enough, ∀ budget ≥ enough,
      (outcome (parseNext budget) (TokenStream.ofText e.source)).1 = .ok (e, false) := by
  obtain ⟨enough, h⟩ := exists_returns he
  have henough : ∀ budget ≥ enough,
      (outcome (parseNext budget) (TokenStream.ofText e.source)).1 = .ok (e, false) :=
    fun budget hle => parseNext_of_returns (h.imp (phrases_mono hle))
  refine ⟨fun budget => ?_, enough, henough⟩
  by_cases hranOut : RanOut (outcome (parseNext budget) (TokenStream.ofText e.source)).1
  · exact .inl hranOut
  · have hlarger := henough (max budget enough) (Nat.le_max_right _ _)
    rw [parseNext_prolongs (Nat.le_max_left budget enough) _ hranOut] at hlarger
    exact .inr hlarger

/-- A keyword may begin a name, and two bars may stand side by side. -/
theorem parseNext_source_thunk :
    let e : Expr := .fn none (.binary .or (.ident "inner") (.int 10))
    e.source = "|| => ((inner) or (10))" ∧
      ∃ enough, ∀ budget ≥ enough,
        (outcome (parseNext budget) (TokenStream.ofText "|| => ((inner) or (10))")).1 =
          .ok (e, false) := by
  intro e
  have hname : Expr.IsName "inner" := by
    constructor
    · exact Kind.mem_language_ident.2
        ⟨'i', ['n', 'n', 'e', 'r'], rfl, by decide, List.all_eq_true.1 (by decide)⟩
    · intro kind
      cases kind <;> decide
  have hnumber : ¬ Numeral.TooLong 10 := by simp [Numeral.TooLong, Numeral.digitLimit]
  have he : e.Spellable := ⟨by simp, hname, by decide, hnumber⟩
  have hsource : e.source = "|| => ((inner) or (10))" := by decide
  obtain ⟨-, hread⟩ := parseNext_source e he
  rw [hsource] at hread
  exact ⟨hsource, hread⟩

end Parser
end LetLang
