import LetLang.Proofs.Diagnoses
import LetLang.Proofs.Paint
import LetLang.Proofs.Renderings
import LetLang.Proofs.Sessions.Runs
import LetLang.Proofs.Inside
/-!
# Inputs without escape characters

Whatever a session prints of its own, and whatever it has to report, is put together from its input,
from the names in its trees, which are identifiers, and from numerals. So it has no escape characters
if the input has none.
-/
namespace LetLang

open Text

/-! ### Trees -/

theorem Text.escapeFree_intercalate {separator : String} {texts : List String}
    (hseparator : EscapeFree separator) (h : ∀ text ∈ texts, EscapeFree text) :
    EscapeFree (separator.intercalate texts) := by
  cases texts with
  | nil => simp [EscapeFree]
  | cons first rest =>
    rw [List.forall_mem_cons] at h
    rw [EscapeFree, Expr.toList_intercalate_cons, Expr.separatedText]
    simp only [List.mem_append, List.mem_flatMap, not_or, not_exists, not_and]
    exact ⟨h.1, fun text htext => ⟨hseparator, h.2 text htext⟩⟩

theorem IsIdentifier.escapeFree {name : String} (h : IsIdentifier name) : EscapeFree name :=
  escapeFree_of_forall (Kind.isWordPart_of_mem_language h (.inr rfl)).2 (by decide)

namespace Expr

theorem hereditary_named : Hereditary Named :=
  fun _ h _ => h.of_mem_children

theorem Named.escapeFree_label {expr : Expr} (h : expr.Named) {label : String}
    (hlabel : expr.label? = some label) : EscapeFree label := by
  have hafter {word name : String} (hword : EscapeFree word) (hname : EscapeFree name) :
      EscapeFree (word ++ name) := escapeFree_append.2 ⟨hword, hname⟩
  cases expr with
  | unit | ifThen | ifThenElse | apply =>
    cases hlabel
    decide
  | binary op | unary op =>
    cases hlabel
    cases op <;> decide
  | bool b =>
    cases hlabel
    cases b <;> decide
  | int n =>
    rw [label?, Option.map_eq_some_iff] at hlabel
    obtain ⟨numeral, hnumeral, rfl⟩ := hlabel
    rw [Numeral.eq_text_of_text?_eq hnumeral]
    exact hafter (by decide) (escapeFree_numeral n)
  | ident name =>
    cases hlabel
    exact hafter (by decide) (IsIdentifier.escapeFree h)
  | define name | letIn name =>
    cases hlabel
    exact hafter (by decide) h.1.escapeFree
  | fn param =>
    cases hlabel
    refine hafter (hafter (by decide) ?_) (by decide)
    cases param with
    | none => decide
    | some name => exact (h.1 name rfl).escapeFree
  | datum => exact absurd h id

/-- What holds of the texts of all children holds of each text in their list. -/
theorem forall_texts {children : List Expr} {text : Expr → Option String} {texts : List String}
    (htexts : children.map text = texts.map some) {p : String → Prop}
    (h : ∀ child ∈ children, ∀ found, text child = some found → p found) :
    ∀ found ∈ texts, p found := by
  intro found hfound
  have hmem : some found ∈ children.map text := by simp [htexts, hfound]
  obtain ⟨child, hchild, heq⟩ := List.mem_map.1 hmem
  exact h child hchild found heq

theorem Named.escapeFree_render {expr : Expr} (h : expr.Named) {text : String}
    (htext : expr.render? = some text) : EscapeFree text := by
  induction expr using children_induction generalizing text with
  | step expr ih =>
    obtain ⟨label, texts, hlabel, htexts, hline⟩ := h.exists_line htext
    have hchildren := forall_texts htexts fun child hchild found hfound =>
      ih child hchild (h.of_mem_children hchild) hfound
    have hseparated : escape ∉ separatedText [' '] texts := by
      simp only [separatedText, List.mem_flatMap, List.mem_append, not_exists, not_and, not_or]
      exact fun text htext => ⟨by decide, hchildren text htext⟩
    have hmarks : escape ≠ '[' ∧ escape ≠ ']' := by decide
    have hlabel : escape ∉ label.toList := h.escapeFree_label hlabel
    rw [EscapeFree, hline]
    simp [hmarks, hlabel, hseparated]

theorem Named.escapeFree_display {expr : Expr} (h : expr.Named) {depth : Nat} {text : String}
    (htext : expr.display? depth = some text) : EscapeFree text := by
  induction expr using children_induction generalizing depth text with
  | step expr ih =>
    obtain ⟨label, texts, hlabel, htexts, hblock⟩ := h.exists_block htext
    have hchildren := forall_texts htexts fun child hchild found hfound =>
      ih child hchild (h.of_mem_children hchild) hfound
    have hindent (n : Nat) : escape ∉ (indent n).toList := by
      simp [indent, escape]
    have hlabel : escape ∉ label.toList := h.escapeFree_label hlabel
    have hinner : escape ∉ inParentheses depth texts := by
      cases texts with
      | nil => simp [inParentheses]
      | cons first rest =>
        have hjoined : escape ∉ (",\n".intercalate (first :: rest)).toList :=
          escapeFree_intercalate (by decide) hchildren
        have hmarks : escape ≠ '(' ∧ escape ≠ '\n' ∧ escape ≠ ')' := by decide
        simp [inParentheses, -String.toList_intercalate, hjoined, hindent, hmarks]
    rw [EscapeFree, hblock]
    simp [hlabel, hinner, hindent]

end Expr

/-! ### Values and faults -/

namespace Value

variable {value : Value}

theorem Inside.escapeFree_text (h : value.Inside Expr.Named) {text : String}
    (htext : value.text? = some text) : EscapeFree text := by
  cases value with
  | unit =>
    cases htext
    decide
  | int n =>
    rw [Numeral.eq_text_of_text?_eq htext]
    exact escapeFree_numeral n
  | bool b =>
    cases htext
    cases b <;> decide
  | closure param body captured =>
    obtain ⟨hparam, hbody⟩ : NamedParam param ∧ body.Named := h
    rw [text?, Option.map_eq_some_iff] at htext
    obtain ⟨rendered, hrendered, rfl⟩ := htext
    have hname : EscapeFree (param.getD "") := by
      cases param with
      | none => decide
      | some name => exact (hparam name rfl).escapeFree
    have hwords : EscapeFree "<closure |" ∧ EscapeFree "| => " ∧ EscapeFree ">" := by decide
    simp [hname, hbody.escapeFree_render hrendered, hwords]

theorem Inside.escapeFree_describe (h : value.Inside Expr.Named) {text : String}
    (htext : value.describe? = some text) : EscapeFree text := by
  rw [describe?, Option.map_eq_some_iff] at htext
  obtain ⟨text, htext, rfl⟩ := htext
  have hname : EscapeFree value.typeName := by
    unfold typeName
    split <;> decide
  have hblank : EscapeFree " " := by decide
  simp [hname, hblank, h.escapeFree_text htext]

end Value

/-- What the fault says and shows has no escape characters. -/
def Fault.EscapeFree (fault : Fault) : Prop :=
  fault.interruption.EscapeFree

namespace Fault

theorem escapeFree_recursionLimit : recursionLimit.EscapeFree :=
  trivial

theorem escapeFree_exhausted : exhausted.EscapeFree :=
  ⟨by decide, by decide⟩

theorem escapeFree_limitMessage {detail : String} (h : Text.EscapeFree detail) :
    Text.EscapeFree (limitMessage detail) := by
  have hwords : Text.EscapeFree "Exceeds the limit (" ∧
      Text.EscapeFree " digits) for integer string conversion" ∧
      Text.EscapeFree "; use sys.set_int_max_str_digits() to increase the limit" := by decide
  have hlimit : Text.EscapeFree (toString Numeral.digitLimit) :=
    escapeFree_repr Numeral.digitLimit
  unfold limitMessage
  -- The numeral of the limit is not to be computed.
  generalize toString Numeral.digitLimit = limit at hlimit ⊢
  refine escapeFree_append.2 ⟨escapeFree_append.2 ⟨?_, h⟩, hwords.2.2⟩
  exact escapeFree_append.2 ⟨escapeFree_append.2 ⟨hwords.1, hlimit⟩, hwords.2.1⟩

theorem escapeFree_numberTooLong : numberTooLong.EscapeFree :=
  ⟨by decide, escapeFree_limitMessage (by decide)⟩

theorem escapeFree_numeralTooLong (digits : Nat) : (numeralTooLong digits).EscapeFree := by
  have hdigits : Text.EscapeFree (toString digits) := escapeFree_repr digits
  have hwords : Text.EscapeFree ": value has " ∧ Text.EscapeFree " digits" := by decide
  refine ⟨by decide, escapeFree_limitMessage ?_⟩
  exact escapeFree_append.2 ⟨escapeFree_append.2 ⟨hwords.1, hdigits⟩, hwords.2⟩

theorem forall_interruption {fault : Option Fault} (h : ∀ found ∈ fault, found.EscapeFree) :
    ∀ found ∈ fault.map interruption, found.EscapeFree := by
  intro found hfound
  obtain ⟨fault, hfault, rfl⟩ := Option.map_eq_some_iff.1 hfound
  exact h fault hfault

end Fault

/-- A complaint about values that were made from a text is put in words without escape
characters. -/
theorem Complaint.Inside.escapeFree_notice {complaint : Complaint}
    (h : complaint.Inside Expr.Named) {error : LanguageError}
    (herror : complaint.error? = some error) : error.notice.EscapeFree := by
  have hplain {wording : List Segment} (hwording : ∀ segment ∈ wording, EscapeFree segment.text) :
      (Notice.plain wording).EscapeFree := ⟨hwording, escapeFree_empty⟩
  have hwords : EscapeFree "identifier '" ∧ EscapeFree "' is not defined" ∧
      EscapeFree "cannot apply '" ∧ EscapeFree "' to " ∧ EscapeFree " and " ∧
      EscapeFree "if condition must be Bool, but found " ∧ EscapeFree "': not a function" ∧
      EscapeFree "cannot divide '" ∧ EscapeFree "' by zero" := by decide
  have hbinary (op : BinaryOp) : EscapeFree op.text := by
    cases op <;> decide
  have hunary (op : UnaryOp) : EscapeFree op.text := by
    cases op <;> decide
  have hvalues := h.values
  cases complaint with
  | unbound name =>
    cases herror
    have hname := IsIdentifier.escapeFree (h.unbound name rfl)
    exact hplain (by simp [LanguageError.wording, Segment.text, hwords, hname])
  | operands op left right =>
    rw [error?, Option.bind_eq_some_iff] at herror
    obtain ⟨first, hfirst, herror⟩ := herror
    obtain ⟨second, hsecond, rfl⟩ := Option.map_eq_some_iff.1 herror
    have hleft := (hvalues left (by simp [Complaint.values])).escapeFree_describe hfirst
    have hright := (hvalues right (by simp [Complaint.values])).escapeFree_describe hsecond
    exact hplain (by simp [LanguageError.wording, Segment.text, hwords, hbinary, hleft, hright])
  | operand op found =>
    obtain ⟨text, htext, rfl⟩ := Option.map_eq_some_iff.1 herror
    have hfound := (hvalues found (by simp [Complaint.values])).escapeFree_describe htext
    exact hplain (by simp [LanguageError.wording, Segment.text, hwords, hunary, hfound])
  | condition found =>
    obtain ⟨text, htext, rfl⟩ := Option.map_eq_some_iff.1 herror
    have hfound := (hvalues found (by simp [Complaint.values])).escapeFree_describe htext
    exact hplain (by simp [LanguageError.wording, Segment.text, hwords, hfound])
  | callee found =>
    obtain ⟨text, htext, rfl⟩ := Option.map_eq_some_iff.1 herror
    have hfound := (hvalues found (by simp [Complaint.values])).escapeFree_text htext
    exact hplain (by simp [LanguageError.wording, Segment.text, hwords, hfound])
  | dividend n =>
    rw [error?, Option.map_eq_some_iff] at herror
    obtain ⟨text, htext, rfl⟩ := herror
    rw [Numeral.eq_text_of_text?_eq htext]
    exact hplain (by simp [LanguageError.wording, Segment.text, hwords])
  | datum found => exact absurd (h.datum found rfl) id

/-- What an evaluation of named expressions fails with has no escape characters. -/
theorem escapeFree_of_result {visit : Visit} (h : visit.Inside Expr.Named) {fault : Fault}
    (hresult : visit.result = .error fault) : fault.EscapeFree := by
  obtain ⟨reached, hreaches, hfails⟩ := Visit.result_eq_error_iff.1 hresult
  have hreached := hreaches.inside Expr.hereditary_named h
  cases hfails with
  | spent => exact Fault.escapeFree_recursionLimit
  | @raises _ complaint hraises =>
    have hcomplaint := hraises.inside Expr.hereditary_named hreached
    rw [Complaint.fault]
    split
    · next error herror => exact hcomplaint.escapeFree_notice herror
    · exact Fault.escapeFree_numberTooLong

/-! ### Faults of reading -/

theorem Token.Of.escapeFree_spelling {text : String} {token : Token} (h : token.Of text) :
    EscapeFree token.spelling := by
  have hname : EscapeFree token.kind.name := by
    cases token.kind <;> decide
  rw [spelling]
  split
  · exact hname
  · next hne =>
    rcases h with rfl | ⟨-, hplaced⟩
    · exact absurd rfl hne
    · intro hmem
      have hvisible := (Kind.visible_of_mem_language hplaced.munched.mem).2 _ hmem
      exact absurd hvisible (by decide)

theorem Refusal.escapeFree {text : String} (htext : EscapeFree text) {fault : Fault}
    (h : Refusal text (Lexer.tokenize text).ending (Token.Of text) fault) : fault.EscapeFree := by
  cases h with
  | @unexpected kinds found hfound =>
    have hkinds : EscapeFree (", ".intercalate (kinds.map Kind.name)) := by
      refine escapeFree_intercalate (by decide) fun name hname => ?_
      obtain ⟨kind, -, rfl⟩ := List.mem_map.1 hname
      cases kind <;> decide
    have hwords : EscapeFree "expected " ∧ EscapeFree " but found '" ∧
        EscapeFree "' at position " := by decide
    refine ⟨?_, htext⟩
    simp [LanguageError.notice, Notice.about, LanguageError.wording, Segment.text,
      hkinds, hwords, hfound.escapeFree_spelling]
  | nested => exact Fault.escapeFree_recursionLimit
  | ended hending =>
    have hbroken := Lexer.broken_tokensFrom text 0 text.toList hending
    rcases hbroken.fault_eq with ⟨place, c, rfl⟩ | ⟨digits, rfl, -⟩
    · have hget := (@Lexer.Broken.getElem?_eq _ _ [] _ _ _ _ _ hbroken rfl).2
      have hc : c ≠ escape := fun heq => htext (heq ▸ List.mem_of_getElem? hget)
      have hwords : EscapeFree "unexpected character '" ∧ EscapeFree "' at position " := by decide
      refine ⟨?_, htext⟩
      have hsingle : EscapeFree (String.singleton c) := by
        simpa [EscapeFree] using hc.symm
      simp [LanguageError.notice, Notice.about, LanguageError.wording, Notice.characterWording,
        Segment.text, hwords, hsingle]
    · exact Fault.escapeFree_numeralTooLong digits
  | exhausted => exact Fault.escapeFree_exhausted

end LetLang
