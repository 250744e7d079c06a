import LetLang.Proofs.Lexing.Language
import LetLang.Proofs.Numerals
import LetLang.Value
/-!
# Labels and children

A node is shown by its label and, after it, its children. The names in a tree that comes from a text
are identifiers, so that a label has none of the marks that stand between labels. A label tells all
of a node but its children, and how many of them there are tells what the node lacks.
-/
namespace LetLang

/-- The name is made like an identifier. -/
def IsIdentifier (name : String) : Prop :=
  name.toList ∈ Kind.ident.language

instance (name : String) : Decidable (IsIdentifier name) :=
  decidable_of_iff
    (name.toList.head?.any Lexer.isWordStart = true ∧ name.toList.tail.all Lexer.isWordPart = true)
    (by
      rw [IsIdentifier, Kind.mem_language_ident]
      cases name.toList <;> simp)

/-- The parameter, if there is one, is made like an identifier. -/
def NamedParam (param : Option String) : Prop :=
  ∀ name ∈ param, IsIdentifier name

namespace Expr

/-- All names and parameters in the expression are identifiers, and no plain data is in it. -/
def Named : Expr → Prop
  | unit | int _ | bool _ => True
  | ident name => IsIdentifier name
  | binary _ left right => left.Named ∧ right.Named
  | unary _ operand => operand.Named
  | define name bound => IsIdentifier name ∧ bound.Named
  | letIn name bound body => IsIdentifier name ∧ bound.Named ∧ body.Named
  | ifThen cond yes => cond.Named ∧ yes.Named
  | ifThenElse cond yes no => cond.Named ∧ yes.Named ∧ no.Named
  | fn param body => NamedParam param ∧ body.Named
  | apply callee argument => callee.Named ∧ argument.Named
  | datum _ => False

/-- The expressions right below an expression, in order. -/
def children : Expr → List Expr
  | unit | int _ | bool _ | ident _ | datum _ => []
  | unary _ operand => [operand]
  | define _ bound => [bound]
  | fn _ body => [body]
  | binary _ left right => [left, right]
  | letIn _ bound body => [bound, body]
  | ifThen cond yes => [cond, yes]
  | apply callee argument => [callee, argument]
  | ifThenElse cond yes no => [cond, yes, no]

/-- What holds of an expression if it holds of its children holds of every expression. -/
@[elab_as_elim]
theorem children_induction {motive : Expr → Prop}
    (step : ∀ expr, (∀ child ∈ expr.children, motive child) → motive expr) (expr : Expr) :
    motive expr := by
  induction expr with
  | unit | int | bool | ident | datum => exact step _ (by simp [children])
  | unary _ _ ih | define _ _ ih | fn _ _ ih => exact step _ (by simp [children, ih])
  | binary _ _ _ ih ih' | letIn _ _ _ ih ih' | ifThen _ _ ih ih' | apply _ _ ih ih' =>
    exact step _ (by simp [children, ih, ih'])
  | ifThenElse _ _ _ ih ih' ih'' => exact step _ (by simp [children, ih, ih', ih''])

theorem Named.of_mem_children {expr child : Expr} (h : expr.Named)
    (hchild : child ∈ expr.children) : child.Named := by
  cases expr with
  | unit | int | bool | ident | datum => simp [children] at hchild
  | unary | define | fn | binary | letIn | ifThen | apply | ifThenElse =>
    simp only [children, List.mem_cons, List.not_mem_nil, or_false] at hchild
    simp only [Named] at h
    grind

theorem Named.isDatum_eq_false {expr : Expr} (h : expr.Named) : expr.isDatum = false := by
  cases expr with
  | datum => exact absurd h id
  | _ => rfl

/-! ### Labels -/

/-- The characters that stand between labels. -/
def marks : List Char := ['[', ']', '(', ')', ',', '\n']

/-- The text has no marks in it, and no blank at its end. -/
structure Unmarked (cs : List Char) : Prop where
  notMem : ∀ c ∈ cs, c ∉ marks
  last : cs.getLast? ≠ some ' '

/-- Literals are checked for marks one character after the other. -/
theorem forall_notMem_marks {cs : List Char} (h : cs.all (· ∉ marks) = true) :
    ∀ c ∈ cs, c ∉ marks := by
  simpa using h

theorem unmarked_append {cs ds : List Char} (hcs : ∀ c ∈ cs, c ∉ marks) (h : Unmarked ds)
    (hne : ds ≠ []) : Unmarked (cs ++ ds) where
  notMem c hc := by
    rcases List.mem_append.1 hc with hleft | hright
    · exact hcs c hleft
    · exact h.notMem c hright
  last := by
    rw [List.getLast?_append_of_ne_nil _ hne]
    exact h.last

theorem unmarked_of_isWordPart {cs : List Char} (h : ∀ c ∈ cs, Lexer.isWordPart c = true) :
    Unmarked cs where
  notMem c hc hmark := by
    have hparts : marks.all (!Lexer.isWordPart ·) = true := by decide
    have hpart := List.all_eq_true.1 hparts c hmark
    rw [h c hc] at hpart
    cases hpart
  last hlast := absurd (h ' ' (List.mem_of_getLast? hlast)) (by decide)

end Expr

theorem IsIdentifier.unmarked {name : String} (h : IsIdentifier name) :
    name.toList ≠ [] ∧ Expr.Unmarked name.toList := by
  obtain ⟨hne, hparts⟩ := Kind.isWordPart_of_mem_language h (.inr rfl)
  exact ⟨hne, Expr.unmarked_of_isWordPart hparts⟩

/-- No parameter has an empty name, so that none at all is told from one. -/
theorem NamedParam.eq_of_getD_eq {param param' : Option String} (h : NamedParam param)
    (h' : NamedParam param') (heq : param.getD "" = param'.getD "") : param = param' := by
  have hne {name : String} (hname : IsIdentifier name) : name ≠ "" := by
    rintro rfl
    exact hname.unmarked.1 rfl
  cases param <;> cases param' <;> simp_all [NamedParam]

namespace Numeral

theorem unmarked_text (n : Int) : (text n).toList ≠ [] ∧ Expr.Unmarked (text n).toList := by
  have hdigits : Expr.Unmarked (Nat.repr n.natAbs).toList :=
    Expr.unmarked_of_isWordPart fun c hc => Kind.isWordPart_of_isDigit (isDigit_of_mem_repr hc)
  have hne : (Nat.repr n.natAbs).toList ≠ [] := by simp
  rw [text]
  split
  · rw [String.toList_append]
    exact ⟨by simp, Expr.unmarked_append (Expr.forall_notMem_marks (by decide)) hdigits hne⟩
  · exact ⟨hne, hdigits⟩

/-- Different numbers have different numerals. -/
theorem text_injective : Function.Injective text := by
  have habs {k l : Nat} (h : Nat.repr k = Nat.repr l) : k = l := by
    rw [← value_repr k, h, value_repr]
  have hsign (k l : Nat) : "-" ++ Nat.repr k ≠ Nat.repr l := by
    intro h
    have hdigit : isDigit '-' = true := isDigit_of_mem_repr (n := l) (by simp [← h])
    cases hdigit
  intro n m h
  unfold text at h
  split at h <;> split at h
  · have hsame := habs ((String.append_right_inj _).1 h)
    omega
  · exact absurd h (hsign _ _)
  · exact absurd h.symm (hsign _ _)
  · have hsame := habs h
    omega

theorem eq_text_of_text?_eq {n : Int} {numeral : String} (h : text? n = some numeral) :
    numeral = text n := by
  rw [text?] at h
  split at h <;> cases h
  rfl

end Numeral

namespace Expr

theorem unmarked_label {expr : Expr} (h : expr.Named) {label : String}
    (hlabel : expr.label? = some label) : Unmarked label.toList := by
  have hafter (word name : String) (hword : word.toList.all (· ∉ marks) = true)
      (hname : name.toList ≠ [] ∧ Unmarked name.toList) : Unmarked (word ++ name).toList := by
    rw [String.toList_append]
    exact unmarked_append (forall_notMem_marks hword) hname.2 hname.1
  cases expr with
  | unit | ifThen | ifThenElse | apply =>
    cases hlabel
    exact ⟨forall_notMem_marks (by decide), by decide⟩
  | binary op | unary op =>
    cases hlabel
    cases op <;> exact ⟨forall_notMem_marks (by decide), by decide⟩
  | bool b =>
    cases hlabel
    cases b <;> exact ⟨forall_notMem_marks (by decide), by decide⟩
  | int n =>
    rw [label?, Option.map_eq_some_iff] at hlabel
    obtain ⟨numeral, hnumeral, rfl⟩ := hlabel
    rw [Numeral.eq_text_of_text?_eq hnumeral]
    exact hafter _ _ (by decide) (Numeral.unmarked_text n)
  | ident name =>
    cases hlabel
    exact hafter _ _ (by decide) (IsIdentifier.unmarked h)
  | define name | letIn name =>
    cases hlabel
    exact hafter _ _ (by decide) h.1.unmarked
  | fn param =>
    cases hlabel
    have hclosing : Unmarked "|".toList := ⟨forall_notMem_marks (by decide), by decide⟩
    refine hafter _ _ ?_ ⟨by decide, hclosing⟩
    cases param with
    | none => decide
    | some name =>
      have hname : name.toList.all (· ∉ marks) = true := by
        simpa using (h.1 name rfl).unmarked.2.notMem
      rw [Option.getD_some, String.toList_append, List.all_append, hname]
      decide
  | datum => exact absurd h id

/-! ### Nodes -/

/-- What kind of node an expression is, whatever it lacks. -/
inductive Form where
  | unit | int | bool | ident | binary (op : BinaryOp) | unary (op : UnaryOp) | binding | conditional
  | fn | apply | datum
  deriving DecidableEq

namespace Form

/-- The word that the labels of the form begin with; plain data has none. -/
def word : Form → String
  | unit => "Unit" | int => "Int" | bool => "Bool" | ident => "Ident"
  | binary op => op.label
  | unary op => op.label
  | binding => "Let" | conditional => "If" | fn => "Fn" | apply => "Apply" | datum => ""

def all : List Form :=
  [unit, int, bool, ident, binary .add, binary .sub, binary .mul, binary .div, binary .eq,
    binary .lt, binary .gt, binary .and, binary .or, unary .not, unary .negate, binding, conditional,
    fn, apply, datum]

theorem find?_word (form : Form) : all.find? (·.word = form.word) = some form := by
  cases form with
  | binary op => cases op <;> decide
  | unary op => cases op <;> decide
  | _ => decide

theorem word_injective : Function.Injective word := by
  intro form other h
  have hfound := find?_word form
  rw [h, find?_word other] at hfound
  exact (Option.some.inj hfound).symm

theorem notMem_word (form : Form) : ' ' ∉ form.word.toList := by
  cases form with
  | binary op => cases op <;> decide
  | unary op => cases op <;> decide
  | _ => decide

end Form

def form : Expr → Form
  | unit => .unit
  | int _ => .int
  | bool _ => .bool
  | ident _ => .ident
  | binary op _ _ => .binary op
  | unary op _ => .unary op
  | define _ _ | letIn _ _ _ => .binding
  | ifThen _ _ | ifThenElse _ _ _ => .conditional
  | fn _ _ => .fn
  | apply _ _ => .apply
  | datum _ => .datum

/-- What a label says after its first word; none if it holds a number too long to be written. -/
def detail? : Expr → Option String
  | int n => (Numeral.text? n).map (" " ++ ·)
  | bool b => some (if b then " true" else " false")
  | ident name | define name _ | letIn name _ _ => some (" " ++ name)
  | fn param _ => some (" |" ++ param.getD "" ++ "|")
  | _ => some ""

theorem Named.label?_eq {expr : Expr} (h : expr.Named) :
    expr.label? = expr.detail?.map (expr.form.word ++ ·) := by
  cases expr with
  | int n =>
    rw [label?, detail?, Option.map_map]
    rfl
  | bool b => cases b <;> rfl
  | ident | define | letIn | fn =>
    simp only [label?, detail?, form, Form.word, Option.map_some, ← String.append_assoc]
    rfl
  | datum => exact absurd h id
  | unit | binary | unary | ifThen | ifThenElse | apply =>
    simp [label?, detail?, form, Form.word]

theorem takeWhile_detail {expr : Expr} {detail : String} (h : expr.detail? = some detail) :
    detail.toList.takeWhile (· ≠ ' ') = [] := by
  cases expr with
  | int n =>
    rw [detail?, Option.map_eq_some_iff] at h
    obtain ⟨numeral, -, rfl⟩ := h
    simp
  | bool b =>
    cases h
    cases b <;> decide
  | ident | define | letIn | fn =>
    cases h
    simp
  | _ =>
    cases h
    decide

/-- A label tells the form of a node, and what it says besides. -/
theorem Named.form_eq {a b : Expr} (ha : a.Named) (hb : b.Named) {label : String}
    (hlabel : a.label? = some label) (hlabel' : b.label? = some label) :
    a.form = b.form ∧ a.detail? = b.detail? := by
  rw [ha.label?_eq, Option.map_eq_some_iff] at hlabel
  rw [hb.label?_eq, Option.map_eq_some_iff] at hlabel'
  obtain ⟨detail, hdetail, rfl⟩ := hlabel
  obtain ⟨detail', hdetail', hsame⟩ := hlabel'
  have hword (form : Form) {detail : String}
      (h : detail.toList.takeWhile (· ≠ ' ') = []) :
      (form.word ++ detail).toList.takeWhile (· ≠ ' ') = form.word.toList := by
    rw [String.toList_append, List.takeWhile_append_of_pos, h, List.append_nil]
    intro c hc
    have hne : c ≠ ' ' := fun heq => form.notMem_word (heq ▸ hc)
    simpa using hne
  have hform : a.form = b.form := by
    apply Form.word_injective
    apply String.toList_inj.1
    rw [← hword a.form (takeWhile_detail hdetail), ← hsame,
      hword b.form (takeWhile_detail hdetail')]
  rw [hform, String.append_right_inj] at hsame
  exact ⟨hform, by rw [hdetail, hdetail', hsame]⟩

/-- A node is told by its label and its children. -/
theorem Named.eq_of_label_eq {a b : Expr} (ha : a.Named) (hb : b.Named) {label : String}
    (hlabel : a.label? = some label) (hlabel' : b.label? = some label)
    (hchildren : a.children = b.children) : a = b := by
  obtain ⟨hform, hdetail⟩ := ha.form_eq hb hlabel hlabel'
  -- Nodes of different forms are out, and so are a node with a part and one that lacks it.
  cases a <;> cases b <;> simp_all [form, children, detail?]
  case int.int n m =>
    rw [label?, Option.map_eq_some_iff] at hlabel hlabel'
    obtain ⟨numeral, hnumeral, rfl⟩ := hlabel
    obtain ⟨numeral', hnumeral', hsame⟩ := hlabel'
    rw [String.append_right_inj, Numeral.eq_text_of_text?_eq hnumeral,
      Numeral.eq_text_of_text?_eq hnumeral'] at hsame
    exact (Numeral.text_injective hsame).symm
  case bool.bool b b' =>
    revert hdetail
    cases b <;> cases b' <;> decide
  case fn.fn param _ param' _ => exact ha.1.eq_of_getD_eq hb.1 hdetail
  case datum.datum => exact absurd ha id

end Expr

end LetLang
