import Mathlib.Computability.Language
import Mathlib.Data.List.Basic
import Mathlib.Data.List.TakeWhile
import LetLang.Proofs.Lexing
/-!
# The languages of the kinds

The texts of a kind form a regular language, given by the pattern that the kind is declared with.
The width of a match is the length of the longest text of the language that stands first, and the
longest match is the longest text of any of the languages, of the first declared kind that has it.
-/
namespace LetLang

open scoped Computability

/-- Regular expressions: a word, a character of some ranges, and what is made of them. -/
inductive Pattern where
  | word (text : List Char)
  | oneOf (ranges : List (Char × Char))
  | either (first second : Pattern)
  | sequence (first second : Pattern)
  | many (pattern : Pattern)

namespace Pattern

def InRanges (ranges : List (Char × Char)) (c : Char) : Prop :=
  ∃ range ∈ ranges, range.1 ≤ c ∧ c ≤ range.2

/-- The texts that a pattern matches as a whole. -/
def language : Pattern → Language Char
  | word text => {text}
  | oneOf ranges => {cs | ∃ c, InRanges ranges c ∧ cs = [c]}
  | either first second => first.language + second.language
  | sequence first second => first.language * second.language
  | many pattern => pattern.language∗

/-- A character of a word, behind a backslash if it means something else in a pattern. -/
def escaped (c : Char) : List Char :=
  if c ∈ ".^$*+?\x7b\x7d[]\\|()".toList then ['\\', c] else [c]

def rangeText (range : Char × Char) : List Char :=
  if range.1 = range.2 then [range.1] else [range.1, '-', range.2]

/-- The usual notation for a pattern. -/
def written : Pattern → List Char
  | word text => text.flatMap escaped
  | oneOf ranges => '[' :: ranges.flatMap rangeText ++ [']']
  | either first second => first.written ++ '|' :: second.written
  | sequence first second => first.written ++ second.written
  | many pattern => pattern.written ++ ['*']

theorem mem_many_oneOf {ranges : List (Char × Char)} {cs : List Char} :
    cs ∈ (many (oneOf ranges)).language ↔ ∀ c ∈ cs, InRanges ranges c := by
  rw [language, Language.mem_kstar]
  constructor
  · rintro ⟨parts, rfl, hparts⟩ c hc
    obtain ⟨part, hpart, hc⟩ := List.mem_flatten.1 hc
    obtain ⟨d, hd, rfl⟩ := hparts part hpart
    rwa [List.mem_singleton.1 hc]
  · intro h
    refine ⟨cs.map fun c => [c], by rw [← List.flatMap_def, List.flatMap_singleton'], ?_⟩
    intro part hpart
    obtain ⟨c, hc, rfl⟩ := List.mem_map.1 hpart
    exact ⟨c, h c hc, rfl⟩

theorem mem_sequence_many {first ranges : List (Char × Char)} {cs : List Char} :
    cs ∈ (sequence (oneOf first) (many (oneOf ranges))).language ↔
      ∃ c rest, cs = c :: rest ∧ InRanges first c ∧ ∀ d ∈ rest, InRanges ranges d := by
  rw [language, Language.mem_mul]
  constructor
  · rintro ⟨_, ⟨c, hc, rfl⟩, rest, hrest, rfl⟩
    exact ⟨c, rest, rfl, hc, mem_many_oneOf.1 hrest⟩
  · rintro ⟨c, rest, rfl, hc, hrest⟩
    exact ⟨[c], ⟨c, hc, rfl⟩, rest, mem_many_oneOf.2 hrest, rfl⟩

end Pattern

namespace Kind

/-- The pattern of a kind; none for the end of the source. -/
def shape : Kind → Option Pattern
  | int =>
    some (.either (.word ['0']) (.sequence (.oneOf [('1', '9')]) (.many (.oneOf [('0', '9')]))))
  | ident =>
    some (.sequence (.oneOf [('a', 'z'), ('A', 'Z'), ('_', '_')])
      (.many (.oneOf [('a', 'z'), ('A', 'Z'), ('0', '9'), ('_', '_')])))
  | kind => kind.fixedText.map fun text => .word text.toList

def language (kind : Kind) : Language Char :=
  (kind.shape.map Pattern.language).getD 0

/-- The shapes are the patterns that the kinds are declared with. -/
theorem pattern_eq_written (kind : Kind) :
    kind.pattern = kind.shape.map fun shape => String.ofList shape.written := by
  cases kind <;> rfl

theorem char_le_iff {c d : Char} : c ≤ d ↔ c.toNat ≤ d.toNat := by
  rw [Char.le_def, UInt32.le_iff_toNat_le]
  rfl

theorem mem_language_int {cs : List Char} :
    cs ∈ int.language ↔ cs = ['0'] ∨ ∃ c rest, cs = c :: rest ∧ c ≠ '0' ∧
      Numeral.isDigit c = true ∧ ∀ d ∈ rest, Numeral.isDigit d = true := by
  have hdigit : ∀ c, Pattern.InRanges [('0', '9')] c ↔ Numeral.isDigit c = true := by
    intro c
    simp [Pattern.InRanges, Numeral.isDigit]
  have hnonzero : ∀ c, Pattern.InRanges [('1', '9')] c ↔
      c ≠ '0' ∧ Numeral.isDigit c = true := by
    intro c
    have h0 : '0'.toNat = 48 := rfl
    have h1 : '1'.toNat = 49 := rfl
    simp only [Pattern.InRanges, Numeral.isDigit, List.mem_singleton, exists_eq_left,
      Bool.and_eq_true, decide_eq_true_eq, ne_eq, ← Char.toNat_inj, char_le_iff]
    omega
  have hshape : int.language = (Pattern.word ['0']).language +
      (Pattern.sequence (.oneOf [('1', '9')]) (.many (.oneOf [('0', '9')]))).language := rfl
  rw [hshape, Language.mem_add, Pattern.mem_sequence_many]
  simp only [hdigit, hnonzero, and_assoc]
  rfl

theorem mem_language_ident {cs : List Char} :
    cs ∈ ident.language ↔ ∃ c rest, cs = c :: rest ∧ Lexer.isWordStart c = true ∧
      ∀ d ∈ rest, Lexer.isWordPart d = true := by
  have hstart : ∀ c, Pattern.InRanges [('a', 'z'), ('A', 'Z'), ('_', '_')] c ↔
      Lexer.isWordStart c = true := by
    intro c
    simp only [Pattern.InRanges, Lexer.isWordStart, List.mem_cons, List.not_mem_nil, or_false,
      exists_eq_or_imp, exists_eq_left, Bool.or_eq_true, Bool.and_eq_true, decide_eq_true_eq,
      ← Char.toNat_inj, char_le_iff]
    omega
  have hpart : ∀ c, Pattern.InRanges [('a', 'z'), ('A', 'Z'), ('0', '9'), ('_', '_')] c ↔
      Lexer.isWordPart c = true := by
    intro c
    simp only [Pattern.InRanges, Lexer.isWordPart, Lexer.isWordStart, Numeral.isDigit,
      List.mem_cons, List.not_mem_nil, or_false, exists_eq_or_imp, exists_eq_left,
      Bool.or_eq_true, Bool.and_eq_true, decide_eq_true_eq, ← Char.toNat_inj, char_le_iff]
    omega
  have hshape : ident.language = (Pattern.sequence (.oneOf [('a', 'z'), ('A', 'Z'), ('_', '_')])
      (.many (.oneOf [('a', 'z'), ('A', 'Z'), ('0', '9'), ('_', '_')]))).language := rfl
  rw [hshape, Pattern.mem_sequence_many]
  simp only [hstart, hpart]

theorem mem_language_of_fixedText {kind : Kind} (hint : kind ≠ int) (hident : kind ≠ ident)
    {cs : List Char} : cs ∈ kind.language ↔ kind.fixedText = some (String.ofList cs) := by
  have hshape : kind.language =
      ((kind.fixedText.map fun text => Pattern.word text.toList).map Pattern.language).getD 0 := by
    cases kind with
    | int => exact absurd rfl hint
    | ident => exact absurd rfl hident
    | _ => rfl
  rw [hshape]
  cases kind.fixedText with
  | none => simp [Language.notMem_zero]
  | some text =>
    change cs = text.toList ↔ _
    rw [Option.some.injEq]
    constructor
    · intro h
      rw [h, String.ofList_toList]
    · intro h
      rw [h, String.toList_ofList]

theorem mem_all (kind : Kind) : kind ∈ all := by
  cases kind <;> decide

/-! ### What the languages have in common -/

theorem isWordPart_of_isDigit {c : Char} (h : Numeral.isDigit c = true) :
    Lexer.isWordPart c = true := by
  rw [Lexer.isWordPart, h, Bool.or_true]

theorem isWordPart_of_isWordStart {c : Char} (h : Lexer.isWordStart c = true) :
    Lexer.isWordPart c = true := by
  rw [Lexer.isWordPart, h, Bool.true_or]

/-- A text of an open-ended kind is made of the characters of words. -/
theorem isWordPart_of_mem_language {kind : Kind} {cs : List Char} (h : cs ∈ kind.language)
    (hkind : kind = int ∨ kind = ident) : cs ≠ [] ∧ ∀ c ∈ cs, Lexer.isWordPart c = true := by
  rcases hkind with rfl | rfl
  · rcases mem_language_int.1 h with rfl | ⟨c, rest, rfl, -, hc, hrest⟩
    · exact ⟨by simp, List.forall_mem_singleton.2 (by decide)⟩
    · refine ⟨by simp, List.forall_mem_cons.2 ⟨isWordPart_of_isDigit hc, ?_⟩⟩
      intro d hd
      exact isWordPart_of_isDigit (hrest d hd)
  · obtain ⟨c, rest, rfl, hc, hrest⟩ := mem_language_ident.1 h
    exact ⟨by simp, List.forall_mem_cons.2 ⟨isWordPart_of_isWordStart hc, hrest⟩⟩

theorem visible_of_isWordPart {c : Char} (h : Lexer.isWordPart c = true) :
    0x21 ≤ c.toNat ∧ c.toNat ≤ 0x7E := by
  simp only [Lexer.isWordPart, Lexer.isWordStart, Numeral.isDigit, Bool.or_eq_true,
    Bool.and_eq_true, decide_eq_true_eq, ← Char.toNat_inj, char_le_iff] at h
  have ha : 'a'.toNat = 97 ∧ 'z'.toNat = 122 ∧ 'A'.toNat = 65 ∧ 'Z'.toNat = 90 ∧ '0'.toNat = 48 ∧
      '9'.toNat = 57 ∧ '_'.toNat = 95 := by decide
  omega

/-- No text of a kind is empty, and its characters can be seen. -/
theorem visible_of_mem_language {kind : Kind} {cs : List Char} (h : cs ∈ kind.language) :
    cs ≠ [] ∧ ∀ c ∈ cs, 0x21 ≤ c.toNat ∧ c.toNat ≤ 0x7E := by
  by_cases hkind : kind = int ∨ kind = ident
  · obtain ⟨hne, hparts⟩ := isWordPart_of_mem_language h hkind
    exact ⟨hne, fun c hc => visible_of_isWordPart (hparts c hc)⟩
  · rw [not_or] at hkind
    have htext := (mem_language_of_fixedText hkind.1 hkind.2).1 h
    rw [← String.toList_ofList (l := cs)]
    generalize String.ofList cs = text at htext
    have hfixed : text.toList ≠ [] ∧
        text.toList.all (fun c => 0x21 ≤ c.toNat ∧ c.toNat ≤ 0x7E) = true := by
      cases kind <;> cases htext <;> decide
    simpa only [List.all_eq_true, decide_eq_true_eq] using hfixed

/-- None of these characters may stand in a gap by itself. -/
theorem isSpace_of_mem_language {kind : Kind} {cs : List Char} (h : cs ∈ kind.language) :
    cs ≠ [] ∧ ∀ c ∈ cs, Lexer.isSpace c = false := by
  obtain ⟨hne, hvisible⟩ := visible_of_mem_language h
  refine ⟨hne, fun c hc => ?_⟩
  have hc := hvisible c hc
  by_contra hspace
  simp only [Lexer.isSpace, Bool.not_eq_false, Bool.or_eq_true, decide_eq_true_eq] at hspace
  rcases hspace with ((rfl | rfl) | rfl) | rfl <;> exact absurd hc (by decide)

end Kind

namespace Lexer

open Kind

/-! ### The width of a match -/

theorem take_length_takeWhile (p : Char → Bool) (cs : List Char) :
    cs.take (cs.takeWhile p).length = cs.takeWhile p :=
  (List.prefix_iff_eq_take.1 (List.takeWhile_prefix p)).symm

theorem length_le_takeWhile {p : Char → Bool} {cs rest : List Char} (hcs : cs <+: rest)
    (h : ∀ c ∈ cs, p c = true) : cs.length ≤ (rest.takeWhile p).length := by
  obtain ⟨more, rfl⟩ := hcs
  rw [List.takeWhile_append_of_pos h, List.length_append]
  omega

/-- What a kind matches is a text of it. -/
theorem take_matchWidth_mem {kind : Kind} {cs : List Char} (h : 0 < matchWidth kind cs) :
    cs.take (matchWidth kind cs) ∈ kind.language := by
  by_cases hint : kind = .int
  · subst hint
    cases cs with
    | nil => simp [matchWidth] at h
    | cons c rest =>
      rw [mem_language_int]
      by_cases hzero : c = '0'
      · simp [matchWidth, hzero]
      · by_cases hdigit : Numeral.isDigit c = true
        · simp only [matchWidth, hzero, hdigit, if_false, if_true, List.take_succ_cons,
            take_length_takeWhile]
          exact .inr ⟨c, _, rfl, hzero, hdigit, fun d hd => List.mem_takeWhile_imp hd⟩
        · simp [matchWidth, hzero, hdigit] at h
  by_cases hident : kind = .ident
  · subst hident
    cases cs with
    | nil => simp [matchWidth] at h
    | cons c rest =>
      rw [mem_language_ident]
      by_cases hstart : isWordStart c = true
      · simp only [matchWidth, hstart, if_true, List.take_succ_cons, take_length_takeWhile]
        exact ⟨c, _, rfl, hstart, fun d hd => List.mem_takeWhile_imp hd⟩
      · simp [matchWidth, hstart] at h
  rw [mem_language_of_fixedText hint hident]
  rw [matchWidth_of_fixedText hint hident] at h ⊢
  cases htext : kind.fixedText with
  | none => simp [htext] at h
  | some text =>
    by_cases hbegins : text.toList.isPrefixOf cs = true
    · have htake := List.prefix_iff_eq_take.1 (List.isPrefixOf_iff_prefix.1 hbegins)
      rw [String.length_toList] at htake
      simp [hbegins, ← htake]
    · simp [htext, hbegins] at h

/-- No text of a kind that stands first is longer than what the kind matches. -/
theorem length_le_matchWidth {kind : Kind} {text cs : List Char} (h : text ∈ kind.language)
    (htext : text <+: cs) : text.length ≤ matchWidth kind cs := by
  by_cases hint : kind = .int
  · subst hint
    rcases mem_language_int.1 h with rfl | ⟨c, rest, rfl, hzero, hdigit, hrest⟩
    · obtain ⟨more, rfl⟩ := htext
      simp [matchWidth]
    · obtain ⟨more, rfl⟩ := htext
      have hle := length_le_takeWhile (List.prefix_append rest more) hrest
      simpa [matchWidth, hzero, hdigit] using hle
  by_cases hident : kind = .ident
  · subst hident
    obtain ⟨c, rest, rfl, hstart, hrest⟩ := mem_language_ident.1 h
    obtain ⟨more, rfl⟩ := htext
    have hle := length_le_takeWhile (List.prefix_append rest more) hrest
    simpa [matchWidth, hstart] using hle
  · have hfixed := (mem_language_of_fixedText hint hident).1 h
    rw [matchWidth_of_fixedText hint hident, hfixed]
    simp [List.isPrefixOf_iff_prefix.2 htext]

/-! ### The longest match -/

/-- Of the kinds in a list, the first that matches farthest is kept if it matches farther than what
was kept before. -/
theorem foldl_wider (cs : List Char) (kinds : List Kind) (best : Kind × Nat) :
    let result := kinds.foldl (wider cs) best
    best.2 ≤ result.2 ∧ (∀ kind ∈ kinds, matchWidth kind cs ≤ result.2) ∧
      (result = best ∨ ∃ before kind after, kinds = before ++ kind :: after ∧
        result = (kind, matchWidth kind cs) ∧ best.2 < matchWidth kind cs ∧
        ∀ other ∈ before, matchWidth other cs < matchWidth kind cs) := by
  induction kinds generalizing best with
  | nil => simp
  | cons kind kinds ih =>
    have hwider := ih (wider cs best kind)
    intro result
    have hstep : result = kinds.foldl (wider cs) (wider cs best kind) := rfl
    rw [← hstep] at hwider
    obtain ⟨hle, hall, hresult⟩ := hwider
    by_cases hlt : best.2 < matchWidth kind cs
    · rw [wider, if_pos hlt] at hle hresult
      dsimp only at hle hresult
      refine ⟨by omega, List.forall_mem_cons.2 ⟨hle, hall⟩, .inr ?_⟩
      rcases hresult with hresult | ⟨before, other, after, rfl, hresult, hother, hbefore⟩
      · exact ⟨[], kind, kinds, rfl, hresult, hlt, by simp⟩
      · exact ⟨kind :: before, other, after, rfl, hresult, by omega,
          List.forall_mem_cons.2 ⟨hother, hbefore⟩⟩
    · rw [wider, if_neg hlt] at hle hresult
      refine ⟨hle, List.forall_mem_cons.2 ⟨by omega, hall⟩, ?_⟩
      rcases hresult with hresult | ⟨before, other, after, rfl, hresult, hother, hbefore⟩
      · exact .inl hresult
      · exact .inr ⟨kind :: before, other, after, rfl, hresult, hother,
          List.forall_mem_cons.2 ⟨by omega, hbefore⟩⟩

/-- `text` is the longest text of any kind that `cs` begins with, and `kind` is the first declared
kind that it is a text of. -/
structure Munched (cs : List Char) (kind : Kind) (text : List Char) : Prop where
  begins : text <+: cs
  mem : text ∈ kind.language
  longest : ∀ other text', text' ∈ Kind.language other → text' <+: cs → text'.length ≤ text.length
  first : ∀ other, text ∈ Kind.language other → Kind.all.idxOf kind ≤ Kind.all.idxOf other

theorem munched_of_longest {cs : List Char} {kind : Kind} {width : Nat}
    (h : longest cs = (kind, width)) (hwidth : 0 < width) :
    Munched cs kind (cs.take width) := by
  obtain ⟨-, hall, hresult⟩ := foldl_wider cs Kind.all (.eof, 0)
  rw [show Kind.all.foldl (wider cs) (.eof, 0) = (kind, width) from h] at hall hresult
  obtain hnone | ⟨before, found, after, hkinds, hfound, hpos, hbefore⟩ := hresult
  · obtain ⟨-, rfl⟩ := Prod.mk.inj hnone
    omega
  · obtain ⟨rfl, rfl⟩ := Prod.mk.inj hfound
    have hlength : (cs.take (matchWidth kind cs)).length = matchWidth kind cs := by
      rw [List.length_take]
      exact Nat.min_eq_left (matchWidth_le kind cs)
    refine ⟨List.take_prefix _ _, take_matchWidth_mem hwidth, ?_, ?_⟩
    · intro other text' hmem hbegins
      have hle := length_le_matchWidth hmem hbegins
      have hbest := hall other (Kind.mem_all other)
      omega
    · intro other hmem
      have hle := length_le_matchWidth hmem (List.take_prefix _ _)
      have hother : other ∉ before := by
        intro hin
        have hlt := hbefore other hin
        omega
      have hkind : kind ∉ before := by
        intro hin
        have hlt := hbefore kind hin
        omega
      rw [hkinds, List.idxOf_append_of_notMem hkind, List.idxOf_append_of_notMem hother,
        List.idxOf_cons_self]
      omega

theorem Munched.unique {cs text text' : List Char} {kind kind' : Kind}
    (h : Munched cs kind text) (h' : Munched cs kind' text') : kind = kind' ∧ text = text' := by
  have hlength : text.length = text'.length :=
    Nat.le_antisymm (h'.longest _ _ h.mem h.begins) (h.longest _ _ h'.mem h'.begins)
  have htext : text = text' := by
    rw [List.prefix_iff_eq_take.1 h.begins, List.prefix_iff_eq_take.1 h'.begins, hlength]
  subst htext
  have hindex : Kind.all.idxOf kind = Kind.all.idxOf kind' :=
    Nat.le_antisymm (h.first _ h'.mem) (h'.first _ h.mem)
  exact ⟨(List.idxOf_inj (Kind.mem_all kind)).1 hindex, rfl⟩

theorem Munched.longest_eq {cs text : List Char} {kind : Kind} (h : Munched cs kind text) :
    Lexer.longest cs = (kind, text.length) := by
  have hmatch := length_le_matchWidth h.mem h.begins
  have hne : 0 < text.length := List.length_pos_iff.2 (isSpace_of_mem_language h.mem).1
  have hall := (foldl_wider cs Kind.all (.eof, 0)).2.1 kind (Kind.mem_all kind)
  rcases hlongest : Lexer.longest cs with ⟨kind', width⟩
  rw [show Kind.all.foldl (wider cs) (.eof, 0) = (kind', width) from hlongest] at hall
  have hwidth : 0 < width := by
    dsimp only at hall
    omega
  have hmunched := munched_of_longest hlongest hwidth
  obtain ⟨rfl, rfl⟩ := h.unique hmunched
  have hle := longest_le cs
  rw [hlongest] at hle
  rw [List.length_take, Nat.min_eq_left hle]

end Lexer
end LetLang
