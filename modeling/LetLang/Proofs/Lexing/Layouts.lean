import LetLang.Proofs.Lexing.Lossless
/-!
# Layouts

A layout writes lexemes one after the other. Between two of them stands a space, and after it any
spaces and comments; before the first and after the last there may be spaces and comments as well.
Reading undoes every layout.
-/
namespace LetLang

/-! ### Lexemes -/

/-- The text is the fixed text of the kind, a numeral that can be read, or an identifier that is no
keyword. -/
def Lexeme.WellFormed (kind : Kind) (text : String) : Prop :=
  kind.fixedText = some text ∨
    kind = .int ∧ text.toList ∈ Kind.int.language ∧ text.length ≤ Numeral.digitLimit ∨
    kind = .ident ∧ text.toList ∈ Kind.ident.language ∧ ∀ other : Kind, other.fixedText ≠ some text

structure Lexeme where
  kind : Kind
  text : String
  wellFormed : Lexeme.WellFormed kind text

namespace Lexeme

/-- What a numeral or an identifier stands for. -/
def value (lexeme : Lexeme) : Option Token.Value :=
  match lexeme.kind with
  | .int => some (.number (Nat.ofDigits 10 (lexeme.text.toList.reverse.map Numeral.digit)))
  | .ident => some (.name lexeme.text)
  | _ => none

def tokenAt (lexeme : Lexeme) (pos : Nat) : Token :=
  { kind := lexeme.kind, text := lexeme.text, pos }

theorem value_tokenAt (lexeme : Lexeme) (pos : Nat) :
    (lexeme.tokenAt pos).value = lexeme.value := by
  rw [Token.value, value, Token.number, Numeral.value_eq_ofDigits]
  rfl

end Lexeme

namespace Kind

theorem fixedText_inj {kind other : Kind} {text : String} (h : kind.fixedText = some text)
    (hother : other.fixedText = some text) : kind = other := by
  have hall : ∀ kind ∈ all, ∀ other ∈ all, kind.fixedText.isSome →
      kind.fixedText = other.fixedText → kind = other := by
    decide +kernel
  exact hall kind (mem_all kind) other (mem_all other) (by rw [h]; rfl) (h.trans hother.symm)

/-- The kinds with one text are declared before the others. -/
theorem idxOf_lt_of_fixedText {kind : Kind} {text : String} (h : kind.fixedText = some text) :
    all.idxOf kind < all.idxOf int ∧ kind ≠ int ∧ kind ≠ ident := by
  cases kind with
  | int | ident | eof => cases h
  | _ => decide

theorem mem_language_fixedText {kind : Kind} {text : String} (h : kind.fixedText = some text) :
    text.toList ∈ kind.language := by
  obtain ⟨-, hint, hident⟩ := idxOf_lt_of_fixedText h
  rw [mem_language_of_fixedText hint hident, h, String.ofList_toList]

theorem fixedText_of_mem_language {kind : Kind} {text : String} (h : text.toList ∈ kind.language) :
    kind.fixedText = some text ∨ kind = int ∨ kind = ident := by
  by_cases hint : kind = int
  · exact .inr (.inl hint)
  by_cases hident : kind = ident
  · exact .inr (.inr hident)
  rw [mem_language_of_fixedText hint hident, String.ofList_toList] at h
  exact .inl h

theorem head?_of_mem_language_int {cs : List Char} (h : cs ∈ int.language) :
    cs.head?.all Numeral.isDigit = true := by
  rcases mem_language_int.1 h with rfl | ⟨c, rest, rfl, -, hdigit, -⟩
  · decide
  · exact hdigit

theorem notMem_language_int_of_fixedText {kind : Kind} {text : String}
    (h : kind.fixedText = some text) : text.toList ∉ int.language := by
  intro hint
  have hhead := head?_of_mem_language_int hint
  cases kind <;> cases h <;> exact absurd hhead (by decide)

theorem notMem_language_int_of_ident {cs : List Char} (h : cs ∈ ident.language) :
    cs ∉ int.language := by
  intro hint
  have hdigit := head?_of_mem_language_int hint
  obtain ⟨c, rest, rfl, hstart, -⟩ := mem_language_ident.1 h
  have h0 : '0'.toNat = 48 := rfl
  have h9 : '9'.toNat = 57 := rfl
  have hupper : 'A'.toNat = 65 := rfl
  have hunder : '_'.toNat = 95 := rfl
  have hlower : 'a'.toNat = 97 := rfl
  simp only [List.head?_cons, Option.all_some, Numeral.isDigit, Lexer.isWordStart,
    Bool.or_eq_true, Bool.and_eq_true, decide_eq_true_eq, ← Char.toNat_inj, char_le_iff]
    at hdigit hstart
  omega

/-- The slash is the only text that begins with one. -/
theorem eq_nil_of_slash {kind : Kind} {cs : List Char} (h : '/' :: cs ∈ kind.language) :
    cs = [] := by
  by_cases hkind : kind = int ∨ kind = ident
  · have hpart := (isWordPart_of_mem_language h hkind).2 '/' (by simp)
    exact absurd hpart (by decide)
  · rw [not_or] at hkind
    have htext := (mem_language_of_fixedText hkind.1 hkind.2).1 h
    have hslash : ∀ kind ∈ all, kind.fixedText.all fun text =>
        text.toList.head? != some '/' || text.toList.tail.isEmpty := by
      decide +kernel
    have hall := hslash kind (mem_all kind)
    rw [htext] at hall
    simpa using hall

end Kind

namespace Lexeme

theorem mem_language (lexeme : Lexeme) : lexeme.text.toList ∈ lexeme.kind.language := by
  rcases lexeme.wellFormed with hfixed | ⟨hkind, hmem, -⟩ | ⟨hkind, hmem, -⟩
  · exact Kind.mem_language_fixedText hfixed
  · rwa [hkind]
  · rwa [hkind]

theorem length_le (lexeme : Lexeme) (h : lexeme.kind = .int) :
    lexeme.text.length ≤ Numeral.digitLimit := by
  rcases lexeme.wellFormed with hfixed | ⟨-, -, hlength⟩ | ⟨hkind, -⟩
  · rw [h] at hfixed
    cases hfixed
  · exact hlength
  · rw [h] at hkind
    cases hkind

/-- The kind of a lexeme is the first declared one that its text belongs to. -/
theorem idxOf_kind_le (lexeme : Lexeme) {other : Kind}
    (h : lexeme.text.toList ∈ other.language) :
    Kind.all.idxOf lexeme.kind ≤ Kind.all.idxOf other := by
  rcases lexeme.wellFormed with hfixed | ⟨hkind, hmem, -⟩ | ⟨hkind, hmem, hname⟩
  · have hlt := (Kind.idxOf_lt_of_fixedText hfixed).1
    have hident : Kind.all.idxOf .int < Kind.all.idxOf .ident := by decide
    rcases Kind.fixedText_of_mem_language h with hother | rfl | rfl
    · rw [Kind.fixedText_inj hfixed hother]
    · omega
    · omega
  · rw [hkind]
    rcases Kind.fixedText_of_mem_language h with hother | rfl | rfl
    · exact absurd hmem (Kind.notMem_language_int_of_fixedText hother)
    · decide
    · decide
  · rw [hkind]
    rcases Kind.fixedText_of_mem_language h with hother | rfl | rfl
    · exact absurd hother (hname other)
    · exact absurd h (Kind.notMem_language_int_of_ident hmem)
    · decide

end Lexeme

namespace Lexer

/-- A character that no text of a kind has beside others: spaces, parentheses and bars. -/
def isBarrier (c : Char) : Bool :=
  isSpace c || c = '(' || c = ')' || c = '|'

theorem isWordPart_eq_false_of_isBarrier {c : Char} (h : isBarrier c = true) :
    isWordPart c = false := by
  simp only [isBarrier, isSpace, Bool.or_eq_true, decide_eq_true_eq] at h
  rcases h with (((((rfl | rfl) | rfl) | rfl) | rfl) | rfl) | rfl <;> decide

theorem eq_singleton_of_isBarrier {kind : Kind} {cs : List Char} {c : Char}
    (h : cs ∈ kind.language) (hc : c ∈ cs) (hbarrier : isBarrier c = true) : cs = [c] := by
  by_cases hkind : kind = .int ∨ kind = .ident
  · have hpart := (Kind.isWordPart_of_mem_language h hkind).2 c hc
    rw [isWordPart_eq_false_of_isBarrier hbarrier] at hpart
    cases hpart
  · rw [not_or] at hkind
    have htext := (Kind.mem_language_of_fixedText hkind.1 hkind.2).1 h
    have hall : ∀ kind ∈ Kind.all, kind.fixedText.all fun text =>
        text.toList.all (!isBarrier ·) || text.toList.length == 1 := by
      decide +kernel
    have halone := hall kind (Kind.mem_all kind)
    rw [htext] at halone
    simp only [Option.all_some, String.toList_ofList, Bool.or_eq_true, List.all_eq_true,
      Bool.not_eq_true', beq_iff_eq] at halone
    rcases halone with hnone | hlength
    · rw [hnone c hc] at hbarrier
      cases hbarrier
    · obtain ⟨d, rfl⟩ := List.length_eq_one_iff.1 hlength
      rw [List.mem_singleton.1 hc]

/-- The text does not run into what follows it, since one of the two has a barrier there. -/
def Fenced (text rest : List Char) : Prop :=
  ∀ c ∈ rest.head?, isBarrier c = true ∨ ∃ d, text = [d] ∧ isBarrier d = true

def Spaced (rest : List Char) : Prop :=
  ∀ c ∈ rest.head?, isSpace c = true

theorem Spaced.fenced {text rest : List Char} (h : Spaced rest) : Fenced text rest := by
  intro c hc
  exact .inl (by rw [isBarrier, h c hc]; rfl)

/-- Before a fence, a lexeme is the longest text: any longer one would hold the barrier. -/
theorem munched_lexeme (lexeme : Lexeme) {rest : List Char}
    (hrest : Fenced lexeme.text.toList rest) :
    Munched (lexeme.text.toList ++ rest) lexeme.kind lexeme.text.toList := by
  refine ⟨List.prefix_append _ _, lexeme.mem_language, ?_, fun other => lexeme.idxOf_kind_le⟩
  intro other text hmem hbegins
  rcases List.prefix_or_prefix_of_prefix hbegins (List.prefix_append _ rest) with hshort | hlong
  · exact hshort.length_le
  · obtain ⟨more, rfl⟩ := hlong
    rw [List.prefix_append_right_inj] at hbegins
    cases more with
    | nil => simp
    | cons c more =>
      obtain ⟨others, rfl⟩ := hbegins
      have hne := (Kind.isSpace_of_mem_language lexeme.mem_language).1
      rcases hrest c rfl with hbarrier | ⟨d, htext, hbarrier⟩
      · have halone := congrArg List.length
          (eq_singleton_of_isBarrier hmem (by simp) hbarrier)
        have hpos := List.length_pos_iff.2 hne
        simp at halone
        omega
      · have halone := congrArg List.length
          (eq_singleton_of_isBarrier hmem (by simp [htext]) hbarrier)
        simp [htext] at halone

theorem not_startsItem_lexeme (lexeme : Lexeme) {rest : List Char}
    (hrest : Fenced lexeme.text.toList rest) :
    ¬ StartsItem (lexeme.text.toList ++ rest) := by
  have hmem := lexeme.mem_language
  obtain ⟨hne, hspaces⟩ := Kind.isSpace_of_mem_language hmem
  cases htext : lexeme.text.toList with
  | nil => exact absurd htext hne
  | cons c text =>
    rw [htext] at hmem hspaces hrest
    have hspace := hspaces c (by simp)
    -- A comment would need a second character after the slash, and none of the two is a barrier.
    have hcomment : ∀ d others, d = '/' ∨ d = '*' → '/' :: d :: others ≠ c :: text ++ rest := by
      intro d others hd heq
      rw [List.cons_append, List.cons.injEq] at heq
      obtain ⟨rfl, hothers⟩ := heq
      rw [Kind.eq_nil_of_slash hmem, List.nil_append] at hothers
      rcases hrest d (by rw [← hothers]; rfl) with hbarrier | ⟨c, hc, hbarrier⟩
      · rcases hd with rfl | rfl <;> exact absurd hbarrier (by decide)
      · cases hc
        exact absurd hbarrier (by decide)
    rintro ⟨item, more, hitem, heq⟩
    cases hitem with
    | spaces hitem hall =>
      obtain ⟨d, item, rfl⟩ := List.exists_cons_of_ne_nil hitem
      obtain ⟨rfl, -⟩ := List.cons.inj heq
      have hd := hall d (by simp)
      rw [hspace] at hd
      cases hd
    | line _ _ => exact hcomment '/' _ (.inl rfl) heq
    | block _ => exact hcomment '*' _ (.inr rfl) heq

/-! ### Layouts -/

/-- A space, or a comment that ends before what comes next. -/
inductive Filler where
  | space (c : Char) (h : isSpace c = true)
  | block (body : List Char) (h : ¬ ['*', '/'] <:+: body)
  | line (body : List Char) (last : Char) (h : ∀ c ∈ body, endsLine c = false)
      (hlast : endsLine last = true)

def Filler.text : Filler → List Char
  | space c _ => [c]
  | block body _ => '/' :: '*' :: (body ++ ['*', '/'])
  | line body last _ _ => '/' :: '/' :: (body ++ [last])

/-- What separates two lexemes: a space, and then anything that a gap may hold. -/
structure Spacing where
  first : Char
  isSpace_first : isSpace first = true
  others : List Filler

def Spacing.text (spacing : Spacing) : List Char :=
  spacing.first :: spacing.others.flatMap Filler.text

/-- What stands behind the last lexeme: nothing, or a gap, which may go on with a comment up to the
end of the text. -/
inductive Trailing where
  | nothing
  | gap (spacing : Spacing)
  | comment (spacing : Spacing) (body : List Char) (h : ∀ c ∈ body, endsLine c = false)

def Trailing.text : Trailing → List Char
  | nothing => []
  | gap spacing => spacing.text
  | comment spacing body _ => spacing.text ++ '/' :: '/' :: body

/-- A choice of gaps: before all lexemes, behind each that others follow, by its number, and behind
the last. -/
structure Layout where
  lead : List Filler
  gap : Nat → Spacing
  trail : Trailing

namespace Layout

/-- The lexemes as they are written, the first of them being number `i`. -/
def textFrom (layout : Layout) : (i : Nat) → List Lexeme → List Char
  | _, [] => layout.trail.text
  | _, [lexeme] => lexeme.text.toList ++ layout.trail.text
  | i, lexeme :: lexemes =>
    lexeme.text.toList ++ ((layout.gap i).text ++ layout.textFrom (i + 1) lexemes)

def text (layout : Layout) (lexemes : List Lexeme) : String :=
  String.ofList (layout.lead.flatMap Filler.text ++ layout.textFrom 0 lexemes)

/-- The lexemes at the places where they are written, the first of them being number `i`, and the
end of the text. -/
def tokensFrom (layout : Layout) : (i pos : Nat) → List Lexeme → List Token
  | _, pos, [] => [Token.eof (pos + layout.trail.text.length)]
  | _, pos, [lexeme] =>
    [lexeme.tokenAt pos, Token.eof (pos + lexeme.text.length + layout.trail.text.length)]
  | i, pos, lexeme :: lexemes =>
    lexeme.tokenAt pos ::
      layout.tokensFrom (i + 1) (pos + lexeme.text.length + (layout.gap i).text.length) lexemes

def tokens (layout : Layout) (lexemes : List Lexeme) : List Token :=
  layout.tokensFrom 0 (layout.lead.flatMap Filler.text).length lexemes

end Layout

/-- The gap may go on with any other one. -/
def Continues (gap : List Char) : Prop :=
  ∀ more rest, Gap more rest → Gap (gap ++ more) rest

theorem Continues.gap {gap : List Char} (h : Continues gap) (rest : List Char) : Gap gap rest := by
  simpa using h [] rest .nil

theorem Continues.append {gap gap' : List Char} (h : Continues gap) (h' : Continues gap') :
    Continues (gap ++ gap') := by
  intro more rest hmore
  rw [List.append_assoc]
  exact h _ rest (h' more rest hmore)

theorem continues_space {c : Char} (h : isSpace c = true) : Continues [c] := by
  intro more rest hmore
  exact .cons (.spaces (by simp) (by simpa using h)) hmore

theorem isSpace_of_endsLine {c : Char} (h : endsLine c = true) : isSpace c = true := by
  simp only [endsLine, Bool.or_eq_true, decide_eq_true_eq] at h
  rcases h with rfl | rfl <;> decide

theorem Filler.continues (filler : Filler) : Continues filler.text := by
  cases filler with
  | space c hc => exact continues_space hc
  | block body hbody => exact fun more rest hmore => .cons (.block hbody) hmore
  | line body last hbody hlast =>
    intro more rest hmore
    have hend := continues_space (isSpace_of_endsLine hlast) more rest hmore
    have hline : Gap ('/' :: '/' :: body ++ ([last] ++ more)) rest := by
      refine .cons (.line hbody ?_) hend
      intro c hc
      cases hc
      exact hlast
    simpa [Filler.text] using hline

theorem continues_fillers (fillers : List Filler) : Continues (fillers.flatMap Filler.text) := by
  induction fillers with
  | nil => exact fun more rest hmore => hmore
  | cons filler fillers ih =>
    rw [List.flatMap_cons]
    exact filler.continues.append ih

theorem Spacing.continues (spacing : Spacing) : Continues spacing.text :=
  (continues_space spacing.isSpace_first).append (continues_fillers spacing.others)

theorem Spacing.spaced (spacing : Spacing) (rest : List Char) : Spaced (spacing.text ++ rest) := by
  intro c hc
  cases hc
  exact spacing.isSpace_first

theorem Trailing.gap_text (trail : Trailing) : Gap trail.text [] := by
  cases trail with
  | nothing => exact .nil
  | gap spacing => exact spacing.continues.gap []
  | comment spacing body h =>
    have hcomment : Gap ('/' :: '/' :: body ++ []) [] := .cons (.line h (by simp)) .nil
    rw [List.append_nil] at hcomment
    exact spacing.continues _ [] hcomment

theorem Trailing.spaced (trail : Trailing) : Spaced trail.text := by
  cases trail with
  | nothing =>
    intro c hc
    cases hc
  | gap spacing => simpa [Trailing.text] using spacing.spaced []
  | comment spacing body h => exact spacing.spaced _

/-- A lexeme between a gap and a fence is read as it stands. -/
theorem splits_lexeme (lexeme : Lexeme) {pos : Nat} {gap rest : List Char} {tokens : List Token}
    (hgap : Continues gap) (hfenced : Fenced lexeme.text.toList rest)
    (hrest : Splits (pos + gap.length + lexeme.text.length) rest tokens) :
    Splits pos (gap ++ (lexeme.text.toList ++ rest))
      (lexeme.tokenAt (pos + gap.length) :: tokens) :=
  @Splits.token pos gap rest tokens (lexeme.tokenAt (pos + gap.length)) (hgap.gap _)
    (not_startsItem_lexeme lexeme hfenced) rfl (munched_lexeme lexeme hfenced) lexeme.length_le
    hrest

/-- What a layout writes is made of its gaps and its lexemes. -/
theorem Layout.splits_textFrom (layout : Layout) (i : Nat) (lexemes : List Lexeme) :
    ∀ {pos : Nat} {gap : List Char}, Continues gap →
      Splits pos (gap ++ layout.textFrom i lexemes)
        (layout.tokensFrom i (pos + gap.length) lexemes) := by
  fun_induction layout.textFrom i lexemes with
  | case1 i =>
    intro pos gap hgap
    rw [tokensFrom, Nat.add_assoc, ← List.length_append]
    exact .eof (hgap _ _ layout.trail.gap_text)
  | case2 i lexeme =>
    intro pos gap hgap
    exact splits_lexeme lexeme hgap layout.trail.spaced.fenced (.eof layout.trail.gap_text)
  | case3 i lexeme lexemes hne ih =>
    intro pos gap hgap
    have hspaced := (layout.gap i).spaced (layout.textFrom (i + 1) lexemes)
    have htail := @ih (pos + gap.length + lexeme.text.length) _ (layout.gap i).continues
    rw [tokensFrom]
    · exact splits_lexeme lexeme hgap hspaced.fenced htail
    · exact hne

theorem Layout.tokenize_text (layout : Layout) (lexemes : List Lexeme) :
    tokenize (layout.text lexemes) = { tokens := layout.tokens lexemes, ending := none } := by
  have hsplits : Splits 0 (layout.text lexemes).toList (layout.tokens lexemes) := by
    rw [Layout.text, String.toList_ofList, Layout.tokens, ← Nat.zero_add (List.length _)]
    exact layout.splits_textFrom 0 lexemes (continues_fillers layout.lead)
  exact hsplits.tokensFrom_eq _

/-- But for their places, the tokens are the lexemes and the end of the text. -/
theorem Layout.map_placed_tokensFrom (layout : Layout) (i pos : Nat) (lexemes : List Lexeme) :
    (layout.tokensFrom i pos lexemes).map (Token.placed fun _ => 0) =
      lexemes.map (·.tokenAt 0) ++ [Token.eof 0] := by
  fun_induction layout.tokensFrom i pos lexemes with
  | case1 i pos => rfl
  | case2 i pos lexeme => rfl
  | case3 i pos lexeme lexemes hne ih =>
    rw [List.map_cons, ih]
    rfl

theorem Layout.map_tokens (layout : Layout) (lexemes : List Lexeme) :
    (layout.tokens lexemes).map (fun token => (token.kind, token.text, token.value)) =
      lexemes.map (fun lexeme => (lexeme.kind, lexeme.text, lexeme.value)) ++
        [(.eof, "", none)] := by
  -- None of the three depends on the place.
  have hplaced := congrArg (List.map fun token => (token.kind, token.text, token.value))
    (layout.map_placed_tokensFrom 0 (layout.lead.flatMap Filler.text).length lexemes)
  rw [List.map_map, List.map_append, List.map_map] at hplaced
  simp only [Function.comp_def, Lexeme.value_tokenAt] at hplaced
  exact hplaced

end Lexer
end LetLang
