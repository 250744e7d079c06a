import Mathlib.Data.List.Chain
import LetLang.Proofs.Lexing.Gaps
import LetLang.Proofs.Lexing.Language
import LetLang.Proofs.Numerals
/-!
# The tokens of a text

Between the tokens of a text stand gaps, and each token is the longest text of any kind that stands
there. Nothing is lost: the gaps and the texts of the tokens, in order, make up the text.
-/
namespace LetLang

namespace Lexer

/-! ### One token -/

theorem Munched.kind_ne_eof {cs text : List Char} {kind : Kind} (h : Munched cs kind text) :
    kind ≠ .eof := by
  rintro rfl
  exact Language.notMem_zero _ h.mem

theorem munched_of_scan {source : String} {pos : Nat} {cs : List Char} {token : Token}
    (h : scan source pos cs = .ok token) (hkind : token.kind ≠ .eof) :
    Munched cs token.kind token.text.toList ∧
      (token.kind = .int → token.text.length ≤ Numeral.digitLimit) := by
  cases cs with
  | nil =>
    cases h
    exact absurd rfl hkind
  | cons c rest =>
    rw [scan] at h
    rcases hlongest : longest (c :: rest) with ⟨kind, _ | width⟩
    · rw [hlongest] at h
      cases h
    · rw [hlongest] at h
      dsimp only at h
      split at h
      · cases h
      · next hlimit =>
        cases h
        have hmunched := munched_of_longest hlongest (Nat.succ_pos width)
        rw [List.take_succ_cons] at hmunched
        refine ⟨by rwa [String.toList_ofList], ?_⟩
        intro hint
        have hle := not_and.1 hlimit hint
        have hlength := List.length_take_le width rest
        simp only [String.length_ofList, List.length_cons]
        omega

theorem Munched.scan_eq {cs : List Char} {token : Token}
    (h : Munched cs token.kind token.text.toList)
    (hlimit : token.kind = .int → token.text.length ≤ Numeral.digitLimit) (source : String) :
    scan source token.pos cs = .ok token := by
  have hlongest := h.longest_eq
  have hne := List.length_pos_iff.2 (Kind.isSpace_of_mem_language h.mem).1
  cases cs with
  | nil =>
    have hnil := List.prefix_nil.1 h.begins
    rw [hnil] at hne
    exact absurd hne (by decide)
  | cons c rest =>
    obtain ⟨width, hwidth⟩ := Nat.exists_eq_succ_of_ne_zero (Nat.ne_of_gt hne)
    rw [hwidth] at hlongest
    have htext : c :: rest.take width = token.text.toList := by
      rw [List.prefix_iff_eq_take.1 h.begins, hwidth, List.take_succ_cons]
    rw [String.length_toList] at hwidth
    rw [scan, hlongest]
    dsimp only
    rw [if_neg, htext, String.ofList_toList]
    rintro ⟨hint, hlt⟩
    have hle := hlimit hint
    omega

/-! ### All tokens -/

/-- The text, from an offset of the source on, is made of gaps and tokens, up to the end of the
source. Each token is the longest that stands there, and no gap could go on further. -/
inductive Splits : Nat → List Char → List Token → Prop
  | eof {pos gap} (hgap : Gap gap []) : Splits pos gap [Token.eof (pos + gap.length)]
  | token {pos gap rest tokens} {token : Token} (hgap : Gap gap (token.text.toList ++ rest))
      (hstarts : ¬ StartsItem (token.text.toList ++ rest)) (hpos : token.pos = pos + gap.length)
      (hmunched : Munched (token.text.toList ++ rest) token.kind token.text.toList)
      (hlimit : token.kind = .int → token.text.length ≤ Numeral.digitLimit)
      (hrest : Splits token.stop rest tokens) :
      Splits pos (gap ++ (token.text.toList ++ rest)) (token :: tokens)

theorem not_startsItem_nil : ¬ StartsItem [] := by
  rintro ⟨item, rest, hitem, hnil⟩
  exact hitem.ne_nil (List.append_eq_nil_iff.1 hnil).1

/-- The tokens that are read without a fault are those that the text is made of. -/
theorem splits_tokensFrom (source : String) (pos : Nat) (cs : List Char) :
    (tokensFrom source pos cs).ending = none →
      Splits pos cs (tokensFrom source pos cs).tokens := by
  fun_induction tokensFrom source pos cs with
  | case1 pos cs code fault hscan =>
    intro h
    cases h
  | case2 pos cs code token hscan hkind =>
    intro _
    obtain ⟨gap, rest, hgap, -, rfl, hwidth⟩ := exists_gap cs
    have hcode : code = rest := drop_gapWidth hwidth
    rw [hcode] at hscan
    obtain rfl := scan_eof hscan hkind
    rw [hwidth] at hscan
    cases hscan
    rw [List.append_nil]
    exact .eof hgap
  | case3 pos cs code token hscan hkind ih =>
    intro h
    obtain ⟨gap, rest, hgap, hstarts, rfl, hwidth⟩ := exists_gap cs
    have hcode : code = rest := drop_gapWidth hwidth
    have hrest := ih h
    have hpos := scan_pos hscan
    rw [hwidth] at hpos
    rw [hcode] at hscan hrest
    obtain ⟨hmunched, hlimit⟩ := munched_of_scan hscan hkind
    obtain ⟨more, rfl⟩ := hmunched.begins
    rw [← String.length_toList, List.drop_left] at hrest
    rw [hcode, ← String.length_toList, List.drop_left]
    exact .token hgap hstarts hpos hmunched hlimit hrest

/-- A text that is made of gaps and tokens is read as those tokens. -/
theorem Splits.tokensFrom_eq {pos : Nat} {cs : List Char} {tokens : List Token}
    (h : Splits pos cs tokens) (source : String) :
    tokensFrom source pos cs = { tokens, ending := none } := by
  induction h with
  | @eof pos gap hgap =>
    have hwidth := hgap.gapWidth_append not_startsItem_nil
    rw [List.append_nil] at hwidth
    have hscan : scan source (pos + gapWidth gap) (gap.drop (gapWidth gap)) =
        .ok (Token.eof (pos + gap.length)) := by
      rw [hwidth, List.drop_length]
      rfl
    exact tokensFrom_of_eof hscan rfl
  | @token pos gap rest tokens token hgap hstarts hpos hmunched hlimit _ ih =>
    have hwidth := hgap.gapWidth_append hstarts
    have hcode : (gap ++ (token.text.toList ++ rest)).drop
        (gapWidth (gap ++ (token.text.toList ++ rest))) = token.text.toList ++ rest :=
      drop_gapWidth hwidth
    have hscan : scan source (pos + gapWidth (gap ++ (token.text.toList ++ rest)))
        ((gap ++ (token.text.toList ++ rest)).drop
          (gapWidth (gap ++ (token.text.toList ++ rest)))) = .ok token := by
      rw [hcode, hwidth, ← hpos]
      exact hmunched.scan_eq hlimit source
    rw [tokensFrom_of_ok hscan hmunched.kind_ne_eof, hcode, ← String.length_toList,
      List.drop_left, ih]
    rfl

/-! ### Places -/

def slice (cs : List Char) (start stop : Nat) : List Char :=
  (cs.take stop).drop start

theorem slice_append (before part rest : List Char) :
    slice (before ++ (part ++ rest)) before.length (before.length + part.length) = part := by
  rw [slice, ← List.append_assoc, ← List.length_append, List.take_left, List.drop_left]

/-- From an offset up to the token there is only a gap. -/
def GapBefore (chars : List Char) (start : Nat) (token : Token) : Prop :=
  start ≤ token.pos ∧ Gap (slice chars start token.pos) (chars.drop token.pos)

/-- A token with its text at its place, where it is the longest. -/
structure Placed (chars : List Char) (token : Token) : Prop where
  nonempty : token.text ≠ ""
  slice_eq : slice chars token.pos token.stop = token.text.toList
  munched : Munched (chars.drop token.pos) token.kind token.text.toList

theorem placed_of_munched {before rest : List Char} {token : Token}
    (hpos : token.pos = before.length)
    (h : Munched (token.text.toList ++ rest) token.kind token.text.toList) :
    Placed (before ++ (token.text.toList ++ rest)) token := by
  have hdrop : (before ++ (token.text.toList ++ rest)).drop token.pos =
      token.text.toList ++ rest := by
    rw [hpos, List.drop_left]
  refine ⟨?_, ?_, by rwa [hdrop]⟩
  · intro hempty
    have hne := (Kind.isSpace_of_mem_language h.mem).1
    rw [hempty] at hne
    exact hne rfl
  · rw [Token.stop, hpos, ← String.length_toList]
    exact slice_append before token.text.toList rest

/-- What a text is made of, in terms of offsets: the gap before the first token, the gaps between
any two tokens that follow each other, and the tokens up to the end of the source. -/
theorem Splits.places {before cs : List Char} {pos : Nat} {tokens : List Token}
    (h : Splits pos cs tokens) (hpos : pos = before.length) :
    let chars := before ++ cs
    (∀ first ∈ tokens.head?, GapBefore chars pos first) ∧
      tokens.IsChain (fun first second =>
        first.pos < second.pos ∧ GapBefore chars first.stop second) ∧
      (∀ token ∈ tokens, ¬ StartsItem (chars.drop token.pos)) ∧
      ∃ others, tokens = others ++ [Token.eof chars.length] ∧
        ∀ token ∈ others, token.kind ≠ .eof ∧ Placed chars token := by
  induction h generalizing before with
  | @eof pos gap hgap =>
    subst hpos
    have hend : (Token.eof (before.length + gap.length)).pos = before.length + gap.length := rfl
    have hdrop : (before ++ gap).drop (before.length + gap.length) = [] := by
      rw [← List.length_append, List.drop_length]
    have hslice := slice_append before gap []
    rw [List.append_nil] at hslice
    refine ⟨?_, List.isChain_singleton _, ?_, [], ?_, by simp⟩
    · intro first hfirst
      cases hfirst
      rw [GapBefore, hend, hdrop, hslice]
      exact ⟨Nat.le_add_right _ _, hgap⟩
    · intro token htoken
      rw [List.mem_singleton.1 htoken, hend, hdrop]
      exact not_startsItem_nil
    · rw [List.nil_append, List.length_append]
  | @token pos gap rest tokens token hgap hstarts htoken hmunched hlimit _ ih =>
    subst hpos
    have hlength : token.pos = (before ++ gap).length := by simp [htoken]
    have hstop : token.stop = (before ++ gap ++ token.text.toList).length := by
      rw [Token.stop, List.length_append, ← hlength, String.length_toList]
    have hchars : before ++ gap ++ token.text.toList ++ rest =
        before ++ (gap ++ (token.text.toList ++ rest)) := by
      simp
    have hrest := ih hstop
    rw [hchars] at hrest
    obtain ⟨hhead, hchain, hitems, others, hothers, hplaces⟩ := hrest
    have hplaced := placed_of_munched hlength hmunched
    rw [List.append_assoc] at hplaced
    have hdrop : (before ++ (gap ++ (token.text.toList ++ rest))).drop token.pos =
        token.text.toList ++ rest := by
      rw [hlength, ← List.append_assoc, List.drop_left]
    refine ⟨?_, ?_, ?_, token :: others, by rw [hothers, List.cons_append], ?_⟩
    · intro first hfirst
      cases hfirst
      rw [GapBefore, hdrop, htoken, slice_append]
      exact ⟨Nat.le_add_right _ _, hgap⟩
    · rw [List.isChain_cons]
      refine ⟨?_, hchain⟩
      intro second hsecond
      have hbefore := hhead second hsecond
      have hpos : 0 < token.text.length := by
        rw [← String.length_toList]
        exact List.length_pos_iff.2 (Kind.isSpace_of_mem_language hmunched.mem).1
      refine ⟨?_, hbefore⟩
      have hle : token.pos + token.text.length ≤ second.pos := hbefore.1
      omega
    · rw [List.forall_mem_cons, hdrop]
      exact ⟨hstarts, hitems⟩
    · rw [List.forall_mem_cons]
      exact ⟨⟨hmunched.kind_ne_eof, hplaced⟩, hplaces⟩

/-- A keyword is no identifier: its own kind is declared before that of identifiers. -/
theorem Munched.kind_ne_ident {cs : List Char} {kind other : Kind} {text : String}
    (h : Munched cs kind text.toList) (hother : other.fixedText = some text) : kind ≠ .ident := by
  intro hident
  have hfixed : other ≠ .int ∧ other ≠ .ident ∧ Kind.all.idxOf other < Kind.all.idxOf .ident := by
    cases other with
    | int | ident | eof => cases hother
    | _ => decide
  have hmem : text.toList ∈ other.language := by
    rw [Kind.mem_language_of_fixedText hfixed.1 hfixed.2.1, hother, String.ofList_toList]
  have hle := h.first other hmem
  rw [hident] at hle
  omega

/-- The tokens of a text that is read without a fault lose nothing of it. They end with the one end
of the source, at the length of the text. Each stands at its place, after the one before it, with
only spaces and comments between them. Each is the longest text of any kind that stands there, where
no space and no comment begins, and has the first declared kind of its text, so that no keyword is
an identifier. -/
theorem tokenize_lossless {text : String} (h : (tokenize text).ending = none) :
    let chars := text.toList
    let all := (tokenize text).tokens
    ∃ tokens, all = tokens ++ [Token.eof text.length] ∧
      (∀ token ∈ tokens, token.kind ≠ .eof) ∧
      (all.map Token.pos).Pairwise (· < ·) ∧
      (∀ token ∈ tokens, token.text ≠ "" ∧ slice chars token.pos token.stop = token.text.toList) ∧
      (∀ first ∈ all.head?, GapBefore chars 0 first) ∧
      all.IsChain (fun first second => GapBefore chars first.stop second) ∧
      (∀ token ∈ all, ¬ StartsItem (chars.drop token.pos)) ∧
      (∀ token ∈ tokens, Munched (chars.drop token.pos) token.kind token.text.toList) ∧
      (∀ token ∈ tokens, ∀ kind : Kind, kind.fixedText = some token.text → token.kind ≠ .ident) ∧
      (∀ token ∈ tokens, token.kind = .int → token.value =
        some (.number (Nat.ofDigits 10 (token.text.toList.reverse.map Numeral.digit)))) ∧
      (∀ token ∈ tokens, token.kind = .ident → token.value = some (.name token.text)) := by
  intro chars all
  have hsplits := splits_tokensFrom text 0 text.toList h
  obtain ⟨hhead, hchain, hitems, tokens, htokens, hplaces⟩ :=
    @Splits.places [] _ _ _ hsplits rfl
  have hincreasing : (all.map Token.pos).Pairwise (· < ·) := by
    apply List.IsChain.pairwise
    rw [List.isChain_map]
    exact hchain.imp fun first second hpair => hpair.1
  have hgaps := hchain.imp fun first second hpair => hpair.2
  refine ⟨tokens, htokens, fun token hmem => (hplaces token hmem).1, hincreasing, ?_, hhead, hgaps,
    hitems, fun token hmem => (hplaces token hmem).2.munched, ?_, ?_, ?_⟩
  · intro token hmem
    exact ⟨(hplaces token hmem).2.nonempty, (hplaces token hmem).2.slice_eq⟩
  · intro token hmem kind hkind
    exact (hplaces token hmem).2.munched.kind_ne_ident hkind
  · intro token _ hkind
    rw [Token.value, hkind, Token.number, Numeral.value_eq_ofDigits]
  · intro token _ hkind
    rw [Token.value, hkind]

theorem tokenize_lossless_comments :
    (tokenize "a/*x*/==>12ab/**/let // end").ending = none ∧
      (tokenize "a/*x*/==>12ab/**/let // end").tokens.map Token.pos =
        [0, 6, 7, 9, 11, 17, 27] ∧
      ((tokenize "a/*x*/==>12ab/**/let // end").tokens.map Token.pos).Pairwise (· < ·) := by
  have h : (tokenize "a/*x*/==>12ab/**/let // end").ending = none := by decide +kernel
  obtain ⟨tokens, -, -, hincreasing, -⟩ := tokenize_lossless h
  exact ⟨h, by decide +kernel, hincreasing⟩

end Lexer
end LetLang
