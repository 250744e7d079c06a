import LetLang.Proofs.Arithmetic
import LetLang.Proofs.Parsing.Sources
import LetLang.Proofs.Sessions.Courses
/-!
# Written values

The text of a scalar is a program, whose one expression has this scalar as its value. The sign of a
negative number is a token of its own and an operator of the expression. A numeral is the text of
the number that it denotes, and the longest numerals that can be read are those of the longest
numbers that can be written.
-/
namespace LetLang

open Arithmetic LetLang.Parser

/-! ### Numerals -/

namespace Kind

theorem repr_value {text : String} (h : text.toList ∈ int.language) :
    Nat.repr (Numeral.value text.toList) = text := by
  apply String.toList_injective
  rw [Nat.toList_repr]
  rcases mem_language_int.1 h with hzero | ⟨c, rest, htext, hc, hdigit, hrest⟩
  · rw [hzero]
    decide
  · rw [htext]
    exact Numeral.toDigits_value hc hdigit hrest

theorem isDigit_of_mem_language {cs : List Char} (h : cs ∈ int.language) :
    ∀ c ∈ cs, Numeral.isDigit c = true := by
  rcases mem_language_int.1 h with rfl | ⟨c, rest, rfl, -, hdigit, hrest⟩
  · simp [Numeral.isDigit]
  · exact List.forall_mem_cons.2 ⟨hdigit, hrest⟩

/-- The number of a numeral is written as the numeral, if that is not too long. -/
theorem text?_value {text : String} (h : text.toList ∈ int.language)
    (hlength : text.length ≤ Numeral.digitLimit) :
    Numeral.text? (Numeral.value text.toList) = some text := by
  have hlt := Numeral.value_lt_bound (isDigit_of_mem_language h)
    (by rwa [String.length_toList])
  rw [Numeral.text?, Int.natAbs_natCast, if_pos hlt, Numeral.text_natCast, repr_value h]

end Kind

namespace Lexer

/-- A numeral by itself is read as one numeral, however long it is. -/
theorem munched_numeral {digits : List Char} (h : digits ∈ Kind.int.language) :
    Munched digits .int digits := by
  refine ⟨List.prefix_rfl, h, fun other text _ hbegins => hbegins.length_le, ?_⟩
  intro other hother
  rw [← String.toList_ofList (l := digits)] at h hother
  rcases Kind.fixedText_of_mem_language hother with hfixed | rfl | rfl
  · exact absurd h (Kind.notMem_language_int_of_fixedText hfixed)
  · exact Nat.le_refl _
  · decide

theorem not_startsItem_numeral {digits : List Char} (h : digits ∈ Kind.int.language) :
    ¬ StartsItem digits := by
  obtain ⟨hne, hspaces⟩ := Kind.isSpace_of_mem_language h
  obtain ⟨c, rest, rfl⟩ := List.exists_cons_of_ne_nil hne
  have hslash : c ≠ '/' := by
    rintro rfl
    exact absurd (Kind.isDigit_of_mem_language h '/' (by simp)) (by decide)
  rw [← gapItemWidth_eq_none_iff, gapItemWidth, hspaces c (by simp)]
  simp [commentWidth, hslash]

theorem Munched.scan_eq_numeralTooLong {cs digits : List Char} (h : Munched cs .int digits)
    (hlong : Numeral.digitLimit < digits.length) (source : String) (pos : Nat) :
    scan source pos cs = .error (.numeralTooLong digits.length) := by
  obtain ⟨width, hwidth⟩ := Nat.exists_eq_succ_of_ne_zero (Nat.ne_zero_of_lt hlong)
  have hlongest := h.longest_eq
  cases cs with
  | nil =>
    rw [List.prefix_nil.1 h.begins] at hlong
    exact absurd hlong (Nat.not_lt_zero _)
  | cons c rest =>
    rw [hwidth] at hlong hlongest ⊢
    rw [scan, hlongest]
    exact if_pos ⟨rfl, hlong⟩

theorem tokenize_numeral {text : String} (h : text.toList ∈ Kind.int.language) :
    tokenize text =
      if text.length ≤ Numeral.digitLimit then
        { tokens := [{ kind := .int, text, pos := 0 }, Token.eof text.length], ending := none }
      else { tokens := [], ending := some (.numeralTooLong text.length) } := by
  have hmunched := munched_numeral h
  have hstarts := not_startsItem_numeral h
  split
  case isTrue hlength =>
    have hend : Splits text.length [] [Token.eof text.length] := .eof .nil
    have hsplits := @Splits.token 0 [] [] _ { kind := .int, text, pos := 0 } .nil
      (by simpa using hstarts) rfl (by simpa using hmunched) (fun _ => hlength)
      (by simpa [Token.stop] using hend)
    simpa [tokenize] using hsplits.tokensFrom_eq text
  case isFalse hlength =>
    have hgap : gapWidth text.toList = 0 := gapWidth_of_none (gapItemWidth_eq_none_iff.2 hstarts)
    have hlong : Numeral.digitLimit < text.toList.length := by
      rw [String.length_toList]
      omega
    apply tokensFrom_of_error
    rw [hgap, List.drop_zero, hmunched.scan_eq_numeralTooLong hlong, String.length_toList]

/-! ### Signs -/

/-- A minus sign is read as such before every text. -/
theorem fragment_minus : Fragment true "-".toList (spelling .minus "-") := by
  intro rest following _ hrest pos
  obtain ⟨ts, hts, hsplits⟩ := hrest (pos + "-".length)
  have htext : "-".toList = ['-'] := by decide
  have hlongest : longest ("-".toList ++ rest) = (.minus, 1) := by
    rw [htext]
    rfl
  have hmunched := munched_of_longest hlongest (by decide)
  have hstarts : ¬ StartsItem ("-".toList ++ rest) := by
    rw [htext]
    exact gapItemWidth_eq_none_iff.1 rfl
  refine ⟨_, Language.append_mem_mul ⟨pos, rfl⟩ hts, ?_⟩
  rw [← List.nil_append ("-".toList ++ rest)]
  exact @Splits.token pos [] rest ts { kind := .minus, text := "-", pos } .nil hstarts rfl
    (by simpa [htext] using hmunched) (by simp) hsplits

end Lexer

namespace Parser

open Lexer

theorem negated_le {text : String} :
    spelling .minus "-" * spelling .int text ≤
      phrases 8 (.unary .negate (.int (Numeral.value text.toList))) := by
  intro ts h
  obtain ⟨i, _, ⟨j, rfl⟩, rfl⟩ := mem_spelling_mul.1 h
  have hprimary : Greedy 1 .primary [{ kind := .int, text, pos := j }] _ ∅ := .int rfl
  have hunary : Greedy 3 .unary [{ kind := .minus, text := "-", pos := i },
      { kind := .int, text, pos := j }] (.unary .negate _) {.lparen} :=
    .unary rfl hprimary.application_of_primary
  obtain ⟨opens, hexpr, -⟩ := hunary.expr_of_unary
  exact ⟨opens, hexpr⟩

/-- The text of a scalar is a phrase whose tree has the scalar as its value, in every scope. -/
theorem exists_fragment (a : Scalar) {text : String} (h : a.toValue.text? = some text) :
    ∃ e, Fragment false text.toList (phrases 8 e) ∧
      ∀ budget scope, evaluate (budget + 2) e scope = pure a.toValue := by
  cases a with
  | unit =>
    cases h
    exact ⟨.unit, returns_unit, fun _ _ => rfl⟩
  | bool b =>
    cases h
    exact ⟨.bool b, returns_bool b, fun _ _ => rfl⟩
  | int n =>
    have hshort : ¬ Numeral.TooLong n := by
      rw [← Numeral.text?_eq_none_iff]
      exact fun hnone => Option.some_ne_none text (h.symm.trans hnone)
    have htext : text = Numeral.text n := by
      change Numeral.text? n = some text at h
      rw [Numeral.text?] at h
      split at h
      · exact (Option.some.inj h).symm
      · cases h
    rcases lt_or_ge n 0 with hneg | hpos
    · have hnumeral := fragment_numeral (n := n.natAbs) hshort
      have hphrase := (fragment_minus.append hnumeral (by simp)).imp negated_le
      rw [Numeral.value_repr] at hphrase
      refine ⟨.unary .negate (.int n.natAbs), ?_, fun budget scope => ?_⟩
      · simpa [htext, Numeral.text, hneg] using hphrase
      · have hvalue : -(n.natAbs : Int) = n := by omega
        have heval : evaluate (budget + 2) (.unary .negate (.int n.natAbs)) scope =
            pure (.int (-(n.natAbs : Int))) := rfl
        rw [heval, hvalue]
        rfl
    · obtain ⟨m, rfl⟩ := Int.eq_ofNat_of_zero_le hpos
      rw [htext]
      exact ⟨.int m, returns_int hshort, fun _ _ => rfl⟩

end Parser

namespace Program

open Lexer

/-- A text that is read as one phrase is interpreted as its tree. -/
theorem reads_of_fragment {parsing : Nat} {text : String} {e : Expr}
    (h : Fragment false text.toList (phrases parsing e)) :
    Reads parsing (TokenStream.ofText text) [e] none := by
  obtain ⟨p, opens, last, hpending, hlast, hp, hparse⟩ := exists_takes_of_fragment h
  obtain ⟨first, p, rfl, hfirst⟩ := hp.begins
  have hne : first.kind ∉ [Kind.eof] := by
    rintro hmem
    rw [List.mem_singleton.1 hmem] at hfirst
    exact absurd hfirst (by decide)
  obtain ⟨s₁, hatEnd, hview₁⟩ := takes_nextIs_of_notMem hne _ hpending
  have hpending₁ := congrArg Prod.fst hview₁
  obtain ⟨s₂, hread, hview₂⟩ := hparse s₁ hpending₁
  have hpending₂ := congrArg Prod.fst hview₂
  have heof : last.kind ∈ [Kind.eof] := List.mem_singleton.2 hlast
  obtain ⟨s₃, hend, -⟩ := takes_nextIs_of_mem heof s₂ hpending₂
  exact .cons hatEnd hread (.atEnd hend)

theorem interpret_of_fragment {limits : Limits} {text : String} {e : Expr} {scope : ScopeId}
    {value : Value} (h : Fragment false text.toList (phrases limits.parsing e))
    (he : evaluate limits.evaluation e scope = pure value) (store : Store) :
    outcome (interpret limits text scope) store = (.ok [value], store) := by
  have hreads := reads_iff.1 (reads_of_fragment h)
  rw [outcome_interpret, course, hreads]
  simp [evaluateAll, he, Course.upTo, Course.result, Course.after]

/-- A scalar's text is interpreted as the scalar, in every scope and without an effect. -/
theorem interpret_text (a : Scalar) {text : String} (h : a.toValue.text? = some text)
    {limits : Limits} (hparsing : 8 ≤ limits.parsing) (hevaluation : 2 ≤ limits.evaluation)
    (scope : ScopeId) (store : Store) :
    outcome (interpret limits text scope) store = (.ok [a.toValue], store) := by
  obtain ⟨e, hfragment, hvalue⟩ := exists_fragment a h
  have hlonger := hfragment.imp (phrases_mono hparsing)
  obtain ⟨budget, hbudget⟩ := Nat.exists_eq_add_of_le' hevaluation
  exact interpret_of_fragment hlonger (hbudget ▸ hvalue budget scope) store

end Program

/-! ### Writing and reading -/

theorem Numeral.text?_eq_none_iff_le {n : Int} : text? n = none ↔ 10 ^ digitLimit ≤ n.natAbs := by
  unfold text? bound
  generalize digitLimit = limit
  simp

namespace Arithmetic

theorem Scalar.text?_eq_none_iff (a : Scalar) :
    a.toValue.text? = none ↔ ∃ n, a = .int n ∧ 10 ^ Numeral.digitLimit ≤ n.natAbs := by
  cases a with
  | unit | bool b => simp [toValue, Value.text?]
  | int n => simp [toValue, Value.text?, Numeral.text?_eq_none_iff_le]

theorem Scalar.toValue_injective : Function.Injective toValue := by
  intro a b h
  cases a <;> cases b <;> simp_all [toValue]

/-- A scalar has a text unless it is a number with more than 4300 digits. The text is interpreted as
the scalar alone, in every scope, and nothing is bound by it; so no two scalars have the same text.
A numeral with at most 4300 digits is read as one token, which carries the number that the digits
denote, and this number is written as the numeral; a longer numeral is not read at all. -/
theorem scalars_read_back :
    (∀ a : Scalar, a.toValue.text? = none ↔ ∃ n, a = .int n ∧ 10 ^ 4300 ≤ n.natAbs) ∧
    (∀ (a : Scalar) (text : String), a.toValue.text? = some text →
      ∀ limits : Limits, 8 ≤ limits.parsing → 2 ≤ limits.evaluation →
        ∀ (scope : ScopeId) (store : Store),
          outcome (Program.interpret limits text scope) store = (.ok [a.toValue], store)) ∧
    (∀ (a b : Scalar) (text : String),
      a.toValue.text? = some text → b.toValue.text? = some text → a = b) ∧
    ∀ digits : String, digits.toList ∈ Kind.int.language →
      let token : Token := { kind := .int, text := digits, pos := 0 }
      let number := Nat.ofDigits 10 (digits.toList.reverse.map Numeral.digit)
      Lexer.tokenize digits =
        (if digits.length ≤ 4300 then
          { tokens := [token, Token.eof digits.length], ending := none }
        else { tokens := [], ending := some (.numeralTooLong digits.length) }) ∧
      token.value = some (.number number) ∧
      (digits.length ≤ 4300 → (Value.int number).text? = some digits) := by
  have hlimit : 4300 = Numeral.digitLimit := rfl
  rw [hlimit]
  refine ⟨Scalar.text?_eq_none_iff, ?_, ?_, ?_⟩
  · intro a text h limits hparsing hevaluation scope store
    exact Program.interpret_text a h hparsing hevaluation scope store
  · intro a b text ha hb
    have hlimits : 8 ≤ Limits.standard.parsing ∧ 2 ≤ Limits.standard.evaluation := by decide
    have hsame := Program.interpret_text a ha hlimits.1 hlimits.2 0 Store.empty
    rw [Program.interpret_text b hb hlimits.1 hlimits.2] at hsame
    have hvalues := congrArg Prod.fst hsame
    simp only [Except.ok.injEq, List.cons.injEq, and_true] at hvalues
    exact Scalar.toValue_injective hvalues.symm
  · intro digits h token number
    have hnumber : number = Numeral.value digits.toList := (Numeral.value_eq_ofDigits _).symm
    refine ⟨Lexer.tokenize_numeral h, ?_, fun hlength => ?_⟩
    · rw [hnumber]
      rfl
    · rw [hnumber]
      exact Kind.text?_value h hlength

/-- A sign is no part of a numeral, and only the number without it is one. -/
theorem scalars_read_back_negative :
    (Value.int (-120)).text? = some "-120" ∧
      outcome (Program.interpret .standard "-120" 0) .empty = (.ok [.int (-120)], .empty) ∧
      "120".toList ∈ Kind.int.language ∧
      (Lexer.tokenize "120").tokens = [{ kind := .int, text := "120", pos := 0 }, Token.eof 3] ∧
      (Value.int (Nat.ofDigits 10 [0, 2, 1])).text? = some "120" := by
  obtain ⟨-, hread, -, hnumeral⟩ := scalars_read_back
  have htext : (Scalar.int (-120)).toValue.text? = some "-120" := by decide +kernel
  have hmem : "120".toList ∈ Kind.int.language :=
    Kind.mem_language_int.2
      (.inr ⟨'1', ['2', '0'], rfl, by decide, rfl, by simp [Numeral.isDigit]⟩)
  obtain ⟨htokens, -, hwritten⟩ := hnumeral "120" hmem
  have hlimits : 8 ≤ Limits.standard.parsing ∧ 2 ≤ Limits.standard.evaluation := by decide
  refine ⟨htext, hread (.int (-120)) "-120" htext .standard hlimits.1 hlimits.2 0 .empty, hmem,
    ?_, hwritten (by decide)⟩
  rw [htokens]
  rfl

end Arithmetic
end LetLang
