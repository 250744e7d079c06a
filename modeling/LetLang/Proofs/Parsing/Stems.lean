import LetLang.Proofs.Lexing.Broken
import LetLang.Proofs.Texts.Seam
import LetLang.Proofs.Trees
/-!
# What trees are made of

The names in a tree are the texts of identifiers among the tokens that it is read from, and its
numbers are those of numerals among them; no plain data comes from tokens. So what the lexer makes
sure of for each token holds throughout the trees of a text.
-/
namespace LetLang

namespace Expr

/-- The property holds of an expression and of every expression within it. -/
inductive Throughout (own : Expr → Prop) : Expr → Prop
  | node {expr : Expr} (h : own expr) (hchildren : ∀ child ∈ expr.children, Throughout own child) :
      Throughout own expr

theorem Throughout.mono {own other : Expr → Prop} (h : ∀ expr, own expr → other expr) {expr : Expr}
    (hexpr : expr.Throughout own) : expr.Throughout other := by
  induction hexpr with
  | node hown _ ih => exact .node (h _ hown) ih

/-- What a node says itself stems from the tokens: its name is the text of an identifier among them,
its number that of a numeral. -/
def StemsFrom (tokens : List Token) : Expr → Prop
  | ident name | define name _ | letIn name _ _ | fn (some name) _ =>
    ∃ token ∈ tokens, token.kind = .ident ∧ token.text = name
  | int n => ∃ token ∈ tokens, token.kind = .int ∧ (token.number : Int) = n
  | datum _ => False
  | unit | bool _ | binary _ _ _ | unary _ _ | ifThen _ _ | ifThenElse _ _ _ | fn none _
  | apply _ _ => True

/-- The expression and all expressions within it stem from the tokens. -/
abbrev MadeFrom (tokens : List Token) : Expr → Prop :=
  Throughout (StemsFrom tokens)

theorem StemsFrom.mono {tokens others : List Token} (h : tokens ⊆ others) (expr : Expr)
    (hexpr : expr.StemsFrom tokens) : expr.StemsFrom others := by
  have hname {P : Token → Prop} : (∃ token ∈ tokens, P token) → ∃ token ∈ others, P token :=
    fun ⟨token, hmem, htoken⟩ => ⟨token, h hmem, htoken⟩
  cases expr with
  | ident | int | define | letIn => exact hname hexpr
  | fn param =>
    cases param with
    | none => trivial
    | some name => exact hname hexpr
  | unit | bool | binary | unary | ifThen | ifThenElse | apply | datum => exact hexpr

theorem MadeFrom.mono {tokens others : List Token} (h : tokens ⊆ others) {expr : Expr}
    (hexpr : expr.MadeFrom tokens) : expr.MadeFrom others :=
  Throughout.mono (StemsFrom.mono h) hexpr

/-- The names in a tree are made like identifiers if those of its tokens are. -/
theorem MadeFrom.named {tokens : List Token} {expr : Expr} (hexpr : expr.MadeFrom tokens)
    (h : ∀ token ∈ tokens, token.kind = .ident → IsIdentifier token.text) : expr.Named := by
  have hname {name : String}
      (hstem : ∃ token ∈ tokens, token.kind = .ident ∧ token.text = name) : IsIdentifier name := by
    obtain ⟨token, hmem, hkind, rfl⟩ := hstem
    exact h token hmem hkind
  induction hexpr with
  | @node expr hown _ ih =>
    cases expr with
    | unit | int | bool => trivial
    | ident => exact hname hown
    | unary | binary | ifThen | ifThenElse | apply => simpa [children, Named] using ih
    | define => exact ⟨hname hown, ih _ (by simp [children])⟩
    | letIn => exact ⟨hname hown, ih _ (by simp [children]), ih _ (by simp [children])⟩
    | fn param =>
      refine ⟨?_, ih _ (by simp [children])⟩
      rintro name rfl
      exact hname hown
    | datum => exact hown

end Expr

namespace Parser

open LetLang.Expr

theorem CommaJoined.subset {items : List (List Token)} {p : List Token} (h : CommaJoined items p) :
    ∀ item ∈ items, item ⊆ p := by
  induction h with
  | nil | single => simp
  | cons _ _ ih =>
    refine List.forall_mem_cons.2 ⟨List.subset_append_left _ _, fun item hitem => ?_⟩
    exact List.subset_append_of_subset_right _ (List.subset_cons_of_subset _ (ih item hitem))

theorem madeFrom_foldr {tokens names : List Token} {body : Expr} (h : body.MadeFrom tokens)
    (hkind : ∀ name ∈ names, name.kind = .ident) (hmem : names ⊆ tokens) :
    (names.foldr (fun name inner => Expr.fn (some name.text) inner) body).MadeFrom tokens := by
  induction names with
  | nil => exact h
  | cons name names ih =>
    rw [List.forall_mem_cons] at hkind
    rw [List.cons_subset] at hmem
    refine .node ⟨name, hmem.1, hkind.1, rfl⟩ ?_
    simpa [children] using ih hkind.2 hmem.2

theorem madeFrom_foldl {tokens : List Token} {items : List (List Token × Expr)} {callee : Expr}
    (h : callee.MadeFrom tokens) (hitems : ∀ item ∈ items, item.2.MadeFrom tokens) :
    (items.foldl (fun callee item => Expr.apply callee item.2) callee).MadeFrom tokens := by
  induction items generalizing callee with
  | nil => exact h
  | cons item items ih =>
    rw [List.forall_mem_cons] at hitems
    exact ih (.node trivial (by simp [children, h, hitems.1])) hitems.2

/-- The tree of a phrase is made from the tokens of the phrase. -/
theorem Derives.madeFrom {production : Production} {p tokens : List Token} {e : Expr}
    (h : Derives production p e) : p ⊆ tokens → e.MadeFrom tokens := by
  induction h with
  | exprLet _ ih | exprIf _ ih | exprFn _ ih | exprLogic _ ih | operand _ ih | plain _ ih
  | callee _ ih | argument _ ih => exact ih
  | define _ hname _ _ ih =>
    simp only [List.cons_subset]
    rintro ⟨-, hmem, -, hp⟩
    exact .node ⟨_, hmem, hname, rfl⟩ (by simpa [children] using ih hp)
  | letIn _ hname _ _ _ _ ih ih' =>
    simp only [List.cons_subset, List.append_subset]
    rintro ⟨-, hmem, -, hp, -, hq⟩
    exact .node ⟨_, hmem, hname, rfl⟩ (by simpa [children] using ⟨ih hp, ih' hq⟩)
  | ifThen _ _ _ _ ih ih' =>
    simp only [List.cons_subset, List.append_subset]
    rintro ⟨-, hp, -, hq⟩
    exact .node trivial (by simpa [children] using ⟨ih hp, ih' hq⟩)
  | ifThenElse _ _ _ _ _ _ ih ih' ih'' =>
    simp only [List.cons_subset, List.append_subset]
    rintro ⟨-, hp, -, hq, -, hr⟩
    exact .node trivial (by simpa [children] using ⟨ih hp, ih' hq, ih'' hr⟩)
  | thunk _ _ _ _ ih =>
    simp only [List.cons_subset]
    rintro ⟨-, -, -, hp⟩
    exact .node trivial (by simpa [children] using ih hp)
  | fn _ _ hnames hparams _ _ _ ih =>
    simp only [List.cons_subset, List.append_subset]
    rintro ⟨-, hp, -, -, hq⟩
    refine madeFrom_foldr (ih hq) hnames fun name hname => hp ?_
    exact hparams.subset [name] (List.mem_map_of_mem hname) (List.mem_singleton_self name)
  | operation _ _ _ ih ih' =>
    simp only [List.cons_subset, List.append_subset]
    rintro ⟨hp, -, hq⟩
    exact .node trivial (by simpa [children] using ⟨ih hp, ih' hq⟩)
  | not _ _ ih | negate _ _ ih =>
    simp only [List.cons_subset]
    rintro ⟨-, hp⟩
    exact .node trivial (by simpa [children] using ih hp)
  | callUnit _ _ _ ih =>
    simp only [List.append_subset]
    rintro ⟨hp, -⟩
    have hunit : Expr.unit.MadeFrom tokens := .node trivial (by simp [children])
    exact .node trivial (by simpa [children, hunit] using ih hp)
  | call _ _ _ _ harguments _ ih ih' =>
    simp only [List.cons_subset, List.append_subset]
    rintro ⟨hp, -, hq, -⟩
    refine madeFrom_foldl (ih hp) fun item hitem => ih' item hitem ?_
    exact List.Subset.trans (harguments.subset item.1 (List.mem_map_of_mem hitem)) hq
  | paren _ _ _ ih =>
    simp only [List.cons_subset, List.append_subset]
    exact fun hp => ih hp.2.1
  | int hkind | ident hkind =>
    exact fun hp => .node ⟨_, hp (by simp), hkind, rfl⟩ (by simp [children])
  | unit | trueWord | falseWord => exact fun _ => .node trivial (by simp [children])

end Parser

namespace Program

open LetLang.Parser

theorem madeFrom_of_mem_readStream {parsing : Nat} {rounds : List Token} {s : TokenStream} :
    ∀ expr ∈ (readStream parsing rounds s).1, expr.MadeFrom s.pending := by
  induction rounds generalizing s with
  | nil =>
    rw [readStream.eq_def]
    dsimp only
    rcases Reading.on TokenStream.atEnd s with ⟨_ | _ | _, _⟩ <;> simp
  | cons round rounds ih =>
    cases hpending : s.pending with
    | nil => simp [readStream_of_nil hpending]
    | cons token rest =>
      by_cases hkind : token.kind = .eof
      · simp [readStream_of_eof hpending hkind]
      · obtain ⟨s₁, hview, hread⟩ := readStream_of_cons hpending hkind round
        rw [hread]
        rcases hparse : outcome (parseNext parsing) s₁ with ⟨fault | ⟨expr, _⟩, s'⟩
        · simp
        · obtain ⟨p, opens, hp, htaken, -⟩ := parseNext_sound hparse
          rw [TokenStream.pending_eq_of_view_eq hview, hpending] at htaken
          rw [htaken]
          refine List.forall_mem_cons.2 ⟨hp.derives.madeFrom (by simp), fun other hother => ?_⟩
          exact (ih other hother).mono (by simp)

/-- Every expression that is read from a text is made from the tokens of the text. -/
theorem madeFrom_of_mem_expressions {parsing : Nat} {text : String} {expr : Expr}
    (h : expr ∈ (expressions parsing text).1) : expr.MadeFrom (Lexer.tokenize text).tokens :=
  madeFrom_of_mem_readStream expr h

/-- All names in the expressions that are read from a text are made like identifiers. -/
theorem named_of_mem_expressions {parsing : Nat} {text : String} {expr : Expr}
    (h : expr ∈ (expressions parsing text).1) : expr.Named := by
  refine (madeFrom_of_mem_expressions h).named fun token htoken hkind => ?_
  have hmem := (Lexer.placed_of_mem htoken (by simp [hkind])).munched.mem
  rwa [hkind] at hmem

end Program
end LetLang
