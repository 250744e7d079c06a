import LetLang.Proofs.Parsing.Stems
/-!
# Trees that can be displayed

A numeral is read only if it is short enough to be written, so every tree that is read from a text
can be displayed.
-/
namespace LetLang

/-! ### Displaying -/

namespace Expr

/-- All numbers in the expression are short enough to be written, and no plain data is in it. -/
def Writable : Expr → Prop
  | unit | bool _ | ident _ => True
  | int n => n.natAbs < Numeral.bound
  | binary _ left right => left.Writable ∧ right.Writable
  | unary _ operand => operand.Writable
  | define _ bound => bound.Writable
  | letIn _ bound body => bound.Writable ∧ body.Writable
  | ifThen cond yes => cond.Writable ∧ yes.Writable
  | ifThenElse cond yes no => cond.Writable ∧ yes.Writable ∧ no.Writable
  | fn _ body => body.Writable
  | apply callee argument => callee.Writable ∧ argument.Writable
  | datum _ => False

theorem isSome_childTexts? {children : List (Expr × Option String)}
    (h : ∀ child ∈ children, child.2.isSome) : (childTexts? children).isSome := by
  induction children with
  | nil => rfl
  | cons child children ih =>
    rw [List.forall_mem_cons] at h
    obtain ⟨child, text⟩ := child
    obtain ⟨text, rfl⟩ := Option.isSome_iff_exists.1 h.1
    obtain ⟨texts, htexts⟩ := Option.isSome_iff_exists.1 (ih h.2)
    by_cases hdatum : child.isDatum = true
    · simp [childTexts?, hdatum, htexts]
    · simp [childTexts?, hdatum, htexts]

theorem isSome_block {depth : Nat} {label : Option String}
    {children : List (Expr × Option String)} (hlabel : label.isSome)
    (h : ∀ child ∈ children, child.2.isSome) : (block depth label children).isSome := by
  obtain ⟨label, rfl⟩ := Option.isSome_iff_exists.1 hlabel
  obtain ⟨texts, htexts⟩ := Option.isSome_iff_exists.1 (isSome_childTexts? h)
  unfold block
  rw [htexts]
  cases texts <;> rfl

theorem Writable.isSome_display? {expr : Expr} (h : expr.Writable) (depth : Nat) :
    (expr.display? depth).isSome := by
  induction expr generalizing depth with
  | unit | bool | ident => exact isSome_block rfl (by simp)
  | int n =>
    have hbound : n.natAbs < Numeral.bound := h
    refine isSome_block ?_ (by simp)
    rw [label?, Numeral.text?, if_pos hbound]
    rfl
  | unary _ _ ih | define _ _ ih | fn _ _ ih =>
    exact isSome_block rfl (by simpa using ih h (depth + 1))
  | binary _ _ _ ih ih' | letIn _ _ _ ih ih' | ifThen _ _ ih ih' | apply _ _ ih ih' =>
    refine isSome_block rfl ?_
    simp only [List.mem_cons, List.not_mem_nil, or_false, forall_eq_or_imp, forall_eq]
    exact ⟨ih h.1 _, ih' h.2 _⟩
  | ifThenElse _ _ _ ih ih' ih'' =>
    refine isSome_block rfl ?_
    simp only [List.mem_cons, List.not_mem_nil, or_false, forall_eq_or_imp, forall_eq]
    exact ⟨ih h.1 _, ih' h.2.1 _, ih'' h.2.2 _⟩
  | datum => exact absurd h id

theorem isSome_bracketed {label : Option String} {children : List (Expr × Option String)}
    (hlabel : label.isSome) (h : ∀ child ∈ children, child.2.isSome) :
    (bracketed label children).isSome := by
  obtain ⟨label, rfl⟩ := Option.isSome_iff_exists.1 hlabel
  obtain ⟨texts, htexts⟩ := Option.isSome_iff_exists.1 (isSome_childTexts? h)
  unfold bracketed
  rw [htexts]
  rfl

theorem Writable.isSome_render? {expr : Expr} (h : expr.Writable) : expr.render?.isSome := by
  induction expr with
  | unit | bool | ident => exact isSome_bracketed rfl (by simp)
  | int n =>
    have hbound : n.natAbs < Numeral.bound := h
    refine isSome_bracketed ?_ (by simp)
    rw [label?, Numeral.text?, if_pos hbound]
    rfl
  | unary _ _ ih | define _ _ ih | fn _ _ ih => exact isSome_bracketed rfl (by simpa using ih h)
  | binary _ _ _ ih ih' | letIn _ _ _ ih ih' | ifThen _ _ ih ih' | apply _ _ ih ih' =>
    refine isSome_bracketed rfl ?_
    simp only [List.mem_cons, List.not_mem_nil, or_false, forall_eq_or_imp, forall_eq]
    exact ⟨ih h.1, ih' h.2⟩
  | ifThenElse _ _ _ ih ih' ih'' =>
    refine isSome_bracketed rfl ?_
    simp only [List.mem_cons, List.not_mem_nil, or_false, forall_eq_or_imp, forall_eq]
    exact ⟨ih h.1, ih' h.2.1, ih'' h.2.2⟩
  | datum => exact absurd h id

end Expr

/-! ### Trees of texts -/

/-- The numerals among the tokens are short enough to be written. -/
def Parser.Bounded (tokens : List Token) : Prop :=
  ∀ token ∈ tokens, token.kind = .int → token.number < Numeral.bound

/-- A tree can be written if the numerals among its tokens can. -/
theorem Expr.MadeFrom.writable {tokens : List Token} {expr : Expr} (hexpr : expr.MadeFrom tokens)
    (h : Parser.Bounded tokens) : expr.Writable := by
  induction hexpr with
  | @node expr hown _ ih =>
    cases expr with
    | unit | bool | ident => trivial
    | int n =>
      obtain ⟨token, hmem, hkind, rfl⟩ := hown
      exact h token hmem hkind
    | unary | define | fn | binary | letIn | ifThen | ifThenElse | apply =>
      simpa [children, Writable] using ih
    | datum => exact hown

theorem Lexer.bounded_tokensFrom (source : String) (pos : Nat) (cs : List Char) :
    Parser.Bounded (tokensFrom source pos cs).tokens := by
  fun_induction tokensFrom source pos cs with
  | case1 pos cs code fault hscan => exact fun token htoken => absurd htoken (by simp)
  | case2 pos cs code token hscan hkind =>
    intro other hother hint
    rw [List.mem_singleton.1 hother, hkind] at hint
    cases hint
  | case3 pos cs code token hscan hkind ih =>
    refine List.forall_mem_cons.2 ⟨?_, ih⟩
    intro hint
    obtain ⟨hmunched, hlimit⟩ := munched_of_scan hscan hkind
    have hmem := hmunched.mem
    rw [hint] at hmem
    refine Numeral.value_lt_bound ?_ (by rw [String.length_toList]; exact hlimit hint)
    rcases Kind.mem_language_int.1 hmem with hzero | ⟨c, rest, hdigits, -, hc, hrest⟩
    · rw [hzero]
      exact List.forall_mem_singleton.2 rfl
    · rw [hdigits]
      exact List.forall_mem_cons.2 ⟨hc, hrest⟩

namespace Program

theorem writable_of_mem_expressions {parsing : Nat} {text : String} {expr : Expr}
    (h : expr ∈ (expressions parsing text).1) : expr.Writable :=
  (madeFrom_of_mem_expressions h).writable (Lexer.bounded_tokensFrom text 0 text.toList)

/-- Every expression that is read from a text can be displayed. -/
theorem isSome_display?_of_mem {parsing : Nat} {text : String} {expr : Expr}
    (h : expr ∈ (expressions parsing text).1) (depth : Nat) :
    (expr.display? depth).isSome :=
  (writable_of_mem_expressions h).isSome_display? depth

end Program
end LetLang
