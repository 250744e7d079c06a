import LetLang.Token.Lexer
/-!
# Lexing across a line break

No token and no `//` comment goes on after a line break, so that the tokens of two lines are those
of the first and then those of the second. Only a `/*` that the first line leaves open is closed by
the second, perhaps; by itself it is read as a slash and a star.
-/
namespace LetLang

/-- The token, at a place `n` characters further on. -/
def Token.moved (n : Nat) (token : Token) : Token :=
  { token with pos := token.pos + n }

/-- The fault, in another source and at a place `n` characters further on if it has a place. -/
def Fault.moved (n : Nat) (source : String) : Fault → Fault
  | .language (.unexpectedCharacter _ pos char) =>
    .language (.unexpectedCharacter source (pos + n) char)
  | .language (.unexpectedToken expected found _) =>
    .language (.unexpectedToken expected (found.moved n) source)
  | fault => fault

/-- The token, at the place that `place` gives for its own. -/
def Token.placed (place : Nat → Nat) (token : Token) : Token :=
  { token with pos := place token.pos }

/-- The fault, in another source and, if it has a place, at the one that `place` gives for it. -/
def Fault.placed (place : Nat → Nat) (source : String) : Fault → Fault
  | .language (.unexpectedCharacter _ pos char) =>
    .language (.unexpectedCharacter source (place pos) char)
  | .language (.unexpectedToken expected found _) =>
    .language (.unexpectedToken expected (found.placed place) source)
  | fault => fault

theorem Fault.moved_eq_placed (n : Nat) (source : String) :
    Fault.moved n source = Fault.placed (· + n) source := by
  funext fault
  rcases fault with error | _ | _ | _ | _
  · cases error <;> rfl
  all_goals rfl

namespace Lexer

/-- No slash stands before a star or at the end. -/
def Apart : List Token → Prop
  | [] => True
  | [token] => token.kind ≠ .slash
  | first :: second :: rest =>
    (first.kind = .slash → second.kind ≠ .star) ∧ Apart (second :: rest)

/-- No star stands right behind a slash, where the two could begin a comment. -/
def Parted : List Token → Prop
  | first :: second :: rest =>
    (first.kind = .slash → second.kind = .star → second.pos ≠ first.stop) ∧ Parted (second :: rest)
  | _ => True

theorem Parted.tail {token : Token} {tokens : List Token} (h : Parted (token :: tokens)) :
    Parted tokens := by
  cases tokens with
  | nil => trivial
  | cons next tokens => exact h.2

theorem Apart.parted {tokens : List Token} (h : Apart tokens) : Parted tokens := by
  induction tokens with
  | nil => trivial
  | cons first tokens ih =>
    cases tokens with
    | nil => trivial
    | cons second rest => exact ⟨fun hslash hstar => absurd hstar (h.1 hslash), ih h.2⟩

theorem parted_of_forall {tokens : List Token}
    (h : ∀ slash ∈ tokens, ∀ star ∈ tokens,
      slash.kind = .slash → star.kind = .star → star.pos ≠ slash.stop) : Parted tokens := by
  induction tokens with
  | nil => trivial
  | cons first tokens ih =>
    have hrest := ih fun slash hslash star hstar =>
      h slash (List.mem_cons_of_mem _ hslash) star (List.mem_cons_of_mem _ hstar)
    cases tokens with
    | nil => trivial
    | cons second rest => exact ⟨h first (by simp) second (by simp), hrest⟩

theorem Parted.pos_ne {first second last : Token} {tokens rest : List Token}
    (h : Parted (first :: tokens)) (hlast : last.kind = .eof) (hfirst : first.kind = .slash)
    (hsecond : second.kind = .star) (hrest : tokens ++ [last] = second :: rest) :
    second.pos ≠ first.stop := by
  cases tokens with
  | nil =>
    obtain ⟨rfl, -⟩ := List.cons.inj hrest
    rw [hsecond] at hlast
    cases hlast
  | cons next tokens =>
    obtain ⟨rfl, -⟩ := List.cons.inj hrest
    exact h.1 hfirst hsecond

/-! ### Gaps -/

theorem takeWhile_append_cons {p : Char → Bool} {c : Char} (hc : p c = false)
    (cs us : List Char) : (cs ++ c :: us).takeWhile p = cs.takeWhile p := by
  induction cs with
  | nil => simp [hc]
  | cons d cs ih => simp [List.takeWhile_cons, ih]

theorem closeWidth_append {cs : List Char} {n : Nat} (h : closeWidth cs = some n)
    (us : List Char) : closeWidth (cs ++ us) = some n ∧ n ≤ cs.length := by
  fun_induction closeWidth cs generalizing n with
  | case1 => cases h
  | case2 => cases h
  | case3 c d rest hclose =>
    cases h
    simp [closeWidth, hclose]
  | case4 c d rest hclose ih =>
    obtain ⟨m, hm, rfl⟩ := Option.map_eq_some_iff.1 h
    obtain ⟨happend, hle⟩ := ih hm
    rw [List.cons_append, List.cons_append, closeWidth, if_neg hclose, ← List.cons_append, happend]
    exact ⟨rfl, Nat.succ_le_succ hle⟩

theorem commentWidth_append {cs : List Char} {n : Nat} (h : commentWidth cs = some n)
    (us : List Char) : commentWidth (cs ++ '\n' :: us) = some n ∧ n ≤ cs.length := by
  unfold commentWidth at h
  split at h
  · next rest =>
    cases h
    have hsame : (rest ++ '\n' :: us).takeWhile (!endsLine ·) = rest.takeWhile (!endsLine ·) :=
      takeWhile_append_cons rfl rest us
    refine ⟨by simp [commentWidth, hsame], ?_⟩
    have hle := (List.takeWhile_prefix (l := rest) (!endsLine ·)).length_le
    simp only [List.length_cons]
    omega
  · next rest =>
    obtain ⟨m, hm, rfl⟩ := Option.map_eq_some_iff.1 h
    obtain ⟨happend, hle⟩ := closeWidth_append hm ('\n' :: us)
    exact ⟨by simp [commentWidth, happend], by simpa using hle⟩
  · cases h

theorem gapItemWidth_append {cs : List Char} {n : Nat} (h : gapItemWidth cs = some n)
    (us : List Char) : gapItemWidth (cs ++ '\n' :: us) = some n ∧ n ≤ cs.length := by
  cases cs with
  | nil => cases h
  | cons c rest =>
    rw [gapItemWidth] at h
    rw [List.cons_append, gapItemWidth]
    split at h
    · next hspace =>
      cases h
      exact ⟨if_pos hspace, by simp⟩
    · next hspace =>
      rw [if_neg hspace]
      exact commentWidth_append h us

/-- The text begins with a comment that is never closed. -/
def Unclosed (cs : List Char) : Prop :=
  ∃ rest, cs = '/' :: '*' :: rest ∧ closeWidth rest = none

theorem commentWidth_append_none {cs : List Char} (h : commentWidth cs = none) (hne : cs ≠ [])
    (hclosed : ¬ Unclosed cs) (us : List Char) : commentWidth (cs ++ '\n' :: us) = none := by
  rcases cs with _ | ⟨c, _ | ⟨d, rest⟩⟩
  · exact absurd rfl hne
  · simp [commentWidth]
  · rw [commentWidth.eq_def]
    split
    · next heq =>
      obtain ⟨rfl, rfl, -⟩ : c = '/' ∧ d = '/' ∧ _ := by simpa using heq
      simp [commentWidth] at h
    · next heq =>
      obtain ⟨rfl, rfl, -⟩ : c = '/' ∧ d = '*' ∧ _ := by simpa using heq
      exact absurd ⟨rest, rfl, by simpa [commentWidth] using h⟩ hclosed
    · rfl

theorem gapItemWidth_append_none {cs : List Char} (h : gapItemWidth cs = none) (hne : cs ≠ [])
    (hclosed : ¬ Unclosed cs) (us : List Char) : gapItemWidth (cs ++ '\n' :: us) = none := by
  cases cs with
  | nil => exact absurd rfl hne
  | cons c rest =>
    rw [gapItemWidth] at h
    rw [List.cons_append, gapItemWidth]
    split at h
    · cases h
    · next hspace =>
      rw [if_neg hspace]
      exact commentWidth_append_none h hne hclosed us

theorem gapWidth_le (cs : List Char) : gapWidth cs ≤ cs.length := by
  fun_induction gapWidth cs with
  | case1 cs h => exact Nat.zero_le _
  | case2 cs n h ih =>
    have hn := (gapItemWidth_append h []).2
    rw [List.length_drop] at ih
    omega

theorem gapWidth_of_none {cs : List Char} (h : gapItemWidth cs = none) : gapWidth cs = 0 := by
  rw [gapWidth]
  split
  · rfl
  · next heq => rw [h] at heq; cases heq

theorem gapWidth_of_some {cs : List Char} {n : Nat} (h : gapItemWidth cs = some n) :
    gapWidth cs = n + gapWidth (cs.drop n) := by
  rw [gapWidth]
  split
  · next heq => rw [h] at heq; cases heq
  · next m heq => rw [h] at heq; cases heq; rfl

/-- A gap goes on after a text exactly if it reaches the end of it. -/
theorem gapWidth_append (cs us : List Char) (hclosed : ¬ Unclosed (cs.drop (gapWidth cs))) :
    gapWidth (cs ++ '\n' :: us) =
      if gapWidth cs = cs.length then cs.length + 1 + gapWidth us else gapWidth cs := by
  fun_induction gapWidth cs with
  | case1 cs h =>
    cases cs with
    | nil =>
      have hbreak : gapItemWidth ('\n' :: us) = some 1 := rfl
      rw [List.nil_append, gapWidth_of_some hbreak]
      simp
    | cons c rest =>
      rw [if_neg (by simp), gapWidth_of_none (gapItemWidth_append_none h (by simp) hclosed us)]
  | case2 cs n h ih =>
    obtain ⟨happend, hle⟩ := gapItemWidth_append h us
    rw [← List.drop_drop] at hclosed
    rw [gapWidth_of_some happend, List.drop_append_of_le_length hle, ih hclosed]
    have hrest := gapWidth_le (cs.drop n)
    rw [List.length_drop] at hrest ⊢
    split <;> split <;> omega

/-! ### Tokens -/

theorem isPrefixOf_append_cons {c : Char} {text : List Char} (hc : c ∉ text) (cs us : List Char) :
    text.isPrefixOf (cs ++ c :: us) = text.isPrefixOf cs := by
  induction text generalizing cs with
  | nil => simp
  | cons d text ih =>
    rw [List.mem_cons, not_or] at hc
    cases cs with
    | nil => simp [List.isPrefixOf, Ne.symm hc.1]
    | cons e cs => simp [List.isPrefixOf, ih hc.2]

theorem notMem_fixedText {kind : Kind} {text : String} (h : kind.fixedText = some text) :
    '\n' ∉ text.toList := by
  cases kind <;> cases h <;> decide

theorem matchWidth_of_fixedText {kind : Kind} (hint : kind ≠ .int) (hident : kind ≠ .ident)
    (cs : List Char) :
    matchWidth kind cs =
      match kind.fixedText with
      | none => 0
      | some text => if text.toList.isPrefixOf cs then text.length else 0 := by
  cases kind with
  | int => exact absurd rfl hint
  | ident => exact absurd rfl hident
  | _ => rfl

theorem matchWidth_append (kind : Kind) (cs us : List Char) :
    matchWidth kind (cs ++ '\n' :: us) = matchWidth kind cs := by
  by_cases hint : kind = .int
  · subst hint
    cases cs with
    | nil => rfl
    | cons c rest =>
      have hsame : (rest ++ '\n' :: us).takeWhile Numeral.isDigit =
          rest.takeWhile Numeral.isDigit :=
        takeWhile_append_cons rfl rest us
      simp [matchWidth, hsame]
  by_cases hident : kind = .ident
  · subst hident
    cases cs with
    | nil => rfl
    | cons c rest =>
      have hsame : (rest ++ '\n' :: us).takeWhile isWordPart = rest.takeWhile isWordPart :=
        takeWhile_append_cons rfl rest us
      simp [matchWidth, hsame]
  rw [matchWidth_of_fixedText hint hident, matchWidth_of_fixedText hint hident]
  cases htext : kind.fixedText with
  | none => rfl
  | some text =>
    dsimp only
    rw [isPrefixOf_append_cons (notMem_fixedText htext)]

theorem longest_append (cs us : List Char) : longest (cs ++ '\n' :: us) = longest cs := by
  have hwider : wider (cs ++ '\n' :: us) = wider cs := by
    funext best kind
    rw [wider, wider, matchWidth_append]
  rw [longest, longest, hwider]

theorem matchWidth_le (kind : Kind) (cs : List Char) : matchWidth kind cs ≤ cs.length := by
  by_cases hint : kind = .int
  · subst hint
    cases cs with
    | nil => exact Nat.le_refl 0
    | cons c rest =>
      have hle := (List.takeWhile_prefix (l := rest) Numeral.isDigit).length_le
      simp only [matchWidth, List.length_cons]
      split
      · omega
      · split <;> omega
  by_cases hident : kind = .ident
  · subst hident
    cases cs with
    | nil => exact Nat.le_refl 0
    | cons c rest =>
      have hle := (List.takeWhile_prefix (l := rest) isWordPart).length_le
      simp only [matchWidth, List.length_cons]
      split <;> omega
  rw [matchWidth_of_fixedText hint hident]
  cases kind.fixedText with
  | none => exact Nat.zero_le _
  | some text =>
    dsimp only
    split
    · next h =>
      rw [← String.length_toList]
      exact (List.isPrefixOf_iff_prefix.1 h).length_le
    · exact Nat.zero_le _

/-- The longest match is of some kind, unless nothing matches. -/
theorem longest_cases (cs : List Char) :
    longest cs = (.eof, 0) ∨
      ∃ kind, 0 < matchWidth kind cs ∧ longest cs = (kind, matchWidth kind cs) := by
  have hfold : ∀ (kinds : List Kind) (best : Kind × Nat),
      (best = (.eof, 0) ∨ ∃ kind, 0 < matchWidth kind cs ∧ best = (kind, matchWidth kind cs)) →
      (kinds.foldl (wider cs) best = (.eof, 0) ∨ ∃ kind, 0 < matchWidth kind cs ∧
        kinds.foldl (wider cs) best = (kind, matchWidth kind cs)) := by
    intro kinds
    induction kinds with
    | nil => exact fun best h => h
    | cons kind kinds ih =>
      intro best h
      refine ih _ ?_
      rw [wider]
      split
      · next hlt => exact .inr ⟨kind, Nat.zero_lt_of_lt hlt, rfl⟩
      · exact h
  exact hfold _ _ (.inl rfl)

theorem longest_le (cs : List Char) : (longest cs).2 ≤ cs.length := by
  rcases longest_cases cs with h | ⟨kind, -, h⟩
  · rw [h]
    exact Nat.zero_le _
  · rw [h]
    exact matchWidth_le kind cs

theorem scan_eof {source : String} {pos : Nat} {code : List Char} {token : Token}
    (h : scan source pos code = .ok token) (hkind : token.kind = .eof) : code = [] := by
  cases code with
  | nil => rfl
  | cons c rest =>
    rw [scan] at h
    rcases longest_cases (c :: rest) with hlongest | ⟨kind, hpos, hlongest⟩
    · rw [hlongest] at h
      cases h
    · obtain ⟨width, hwidth⟩ := Nat.exists_eq_succ_of_ne_zero (Nat.ne_of_gt hpos)
      rw [hlongest, hwidth] at h
      dsimp only at h
      split at h
      · cases h
      · cases h
        cases hkind
        cases hwidth

theorem scan_pos {source : String} {pos : Nat} {code : List Char} {token : Token}
    (h : scan source pos code = .ok token) : token.pos = pos := by
  unfold scan at h
  split at h
  · cases h
    rfl
  · split at h
    · cases h
    · split at h
      · cases h
      · cases h
        rfl

theorem scan_slash (source : String) (pos : Nat) (rest : List Char) :
    scan source pos ('/' :: '*' :: rest) = .ok { kind := .slash, text := "/", pos } := by
  have hlongest : longest ('/' :: '*' :: rest) = (.slash, 1) := rfl
  rw [scan, hlongest]
  rfl

theorem scan_star (source : String) (pos : Nat) (rest : List Char) :
    scan source pos ('*' :: rest) = .ok { kind := .star, text := "*", pos } := by
  have hlongest : longest ('*' :: rest) = (.star, 1) := rfl
  rw [scan, hlongest]
  rfl

/-- A token is the same before a line break as at the end of a text. -/
theorem scan_append {source : String} {pos : Nat} {code : List Char} {token : Token}
    (h : scan source pos code = .ok token) (hkind : token.kind ≠ .eof) (source' : String)
    (us : List Char) :
    scan source' pos (code ++ '\n' :: us) = .ok token ∧ token.text.length ≤ code.length := by
  cases code with
  | nil =>
    cases h
    exact absurd rfl hkind
  | cons c rest =>
    have hlongest := longest_append (c :: rest) us
    have hle := longest_le (c :: rest)
    rw [List.cons_append] at hlongest ⊢
    rw [scan] at h ⊢
    rw [hlongest]
    generalize longest (c :: rest) = best at h hle ⊢
    rcases best with ⟨kind, _ | width⟩
    · cases h
    · dsimp only at h hle ⊢
      rw [List.length_cons] at hle
      split at h
      · cases h
      · next hdigits =>
        cases h
        rw [if_neg hdigits, List.take_append_of_le_length (Nat.le_of_succ_le_succ hle)]
        refine ⟨rfl, ?_⟩
        simp only [String.length_ofList, List.length_cons, List.length_take]
        omega

/-! ### Lists of tokens -/

section Feeds

variable {source : String} {pos : Nat} {cs : List Char} {token : Token}

theorem tokensFrom_of_error {fault : Fault}
    (h : scan source (pos + gapWidth cs) (cs.drop (gapWidth cs)) = .error fault) :
    tokensFrom source pos cs = { tokens := [], ending := some fault } := by
  rw [tokensFrom]
  split
  · next heq => rw [h] at heq; cases heq; rfl
  · next heq => rw [h] at heq; cases heq

theorem tokensFrom_of_eof (h : scan source (pos + gapWidth cs) (cs.drop (gapWidth cs)) = .ok token)
    (hkind : token.kind = .eof) :
    tokensFrom source pos cs = { tokens := [token], ending := none } := by
  rw [tokensFrom]
  split
  · next heq => rw [h] at heq; cases heq
  · next heq => rw [h] at heq; cases heq; rw [dif_pos hkind]

theorem tokensFrom_of_ok (h : scan source (pos + gapWidth cs) (cs.drop (gapWidth cs)) = .ok token)
    (hkind : token.kind ≠ .eof) :
    tokensFrom source pos cs =
      (tokensFrom source token.stop
        ((cs.drop (gapWidth cs)).drop token.text.length)).cons token := by
  rw [tokensFrom]
  split
  · next heq => rw [h] at heq; cases heq
  · next heq => rw [h] at heq; cases heq; rw [dif_neg hkind]

/-- The tokens of a text depend only on what comes after its gap. -/
theorem tokensFrom_congr {pos' : Nat} {cs' : List Char}
    (hpos : pos + gapWidth cs = pos' + gapWidth cs')
    (hcode : cs.drop (gapWidth cs) = cs'.drop (gapWidth cs')) :
    tokensFrom source pos cs = tokensFrom source pos' cs' := by
  cases hscan : scan source (pos + gapWidth cs) (cs.drop (gapWidth cs)) with
  | error fault =>
    rw [tokensFrom_of_error hscan]
    rw [hpos, hcode] at hscan
    rw [tokensFrom_of_error hscan]
  | ok token =>
    by_cases hkind : token.kind = .eof
    · rw [tokensFrom_of_eof hscan hkind]
      rw [hpos, hcode] at hscan
      rw [tokensFrom_of_eof hscan hkind]
    · rw [tokensFrom_of_ok hscan hkind]
      rw [hpos, hcode] at hscan
      rw [tokensFrom_of_ok hscan hkind, hcode]

/-- A comment that is never closed is read as a slash and a star right behind it. -/
theorem tokensFrom_unclosed (source : String) (pos : Nat)
    (hclosed : Unclosed (cs.drop (gapWidth cs))) :
    ∃ slash star tokens, (tokensFrom source pos cs).tokens = slash :: star :: tokens ∧
      slash.kind = .slash ∧ star.kind = .star ∧ star.pos = slash.stop := by
  obtain ⟨rest, hcode, -⟩ := hclosed
  have hslash := scan_slash source (pos + gapWidth cs) rest
  rw [← hcode] at hslash
  rw [tokensFrom_of_ok hslash (by simp), hcode]
  have hgap : gapWidth ('*' :: rest) = 0 := gapWidth_of_none rfl
  have hstar : ∀ pos, scan source (pos + gapWidth ('*' :: rest))
      (('*' :: rest).drop (gapWidth ('*' :: rest))) = .ok { kind := .star, text := "*", pos } := by
    intro pos
    rw [hgap]
    exact scan_star source pos rest
  have hnext : ("/".length : Nat) = 1 := rfl
  rw [Feed.cons, hnext, List.drop_succ_cons, List.drop_zero, tokensFrom_of_ok (hstar _) (by simp)]
  exact ⟨_, _, _, rfl, rfl, rfl, rfl⟩

/-- The tokens of a text end with the end of the source, or with a fault before it. -/
theorem tokensFrom_shape (source : String) (pos : Nat) (cs : List Char) :
    (∃ tokens last, tokensFrom source pos cs = { tokens := tokens ++ [last], ending := none } ∧
      last.kind = .eof ∧ ∀ token ∈ tokens, token.kind ≠ .eof) ∨
    ((tokensFrom source pos cs).ending ≠ none ∧
      ∀ token ∈ (tokensFrom source pos cs).tokens, token.kind ≠ .eof) := by
  fun_induction tokensFrom source pos cs with
  | case1 pos cs code fault h => exact .inr ⟨by simp, by simp⟩
  | case2 pos cs code token h hkind => exact .inl ⟨[], token, rfl, hkind, by simp⟩
  | case3 pos cs code token h hkind ih =>
    rcases ih with ⟨tokens, last, hrest, hlast, htokens⟩ | ⟨hending, htokens⟩
    · refine .inl ⟨token :: tokens, last, by rw [hrest]; rfl, hlast, ?_⟩
      exact List.forall_mem_cons.2 ⟨hkind, htokens⟩
    · exact .inr ⟨hending, List.forall_mem_cons.2 ⟨hkind, htokens⟩⟩

theorem Feed.eq_of_cons_eq {feed : Feed} {tokens : List Token} {last : Token}
    (hlast : last.kind = .eof) (hkind : token.kind ≠ .eof)
    (h : feed.cons token = { tokens := tokens ++ [last], ending := none }) :
    ∃ others, tokens = token :: others ∧
      feed = { tokens := others ++ [last], ending := none } := by
  obtain ⟨following, ending⟩ := feed
  obtain ⟨htokens, rfl⟩ := Feed.mk.inj h
  cases tokens with
  | nil =>
    obtain rfl : token = last := (List.cons.inj htokens).1
    exact absurd hlast hkind
  | cons first others =>
    obtain ⟨rfl, rfl⟩ := List.cons.inj htokens
    exact ⟨others, rfl, rfl⟩

/-- A gap that reaches the end of a text goes on in the line after it. -/
theorem tokensFrom_append_of_end (hgap : gapWidth cs = cs.length) (us : List Char) :
    tokensFrom source pos (cs ++ '\n' :: us) = tokensFrom source (pos + cs.length + 1) us := by
  have hclosed : ¬ Unclosed (cs.drop (gapWidth cs)) := by
    rintro ⟨rest, heq, -⟩
    rw [hgap, List.drop_length] at heq
    cases heq
  have happend := gapWidth_append cs us hclosed
  rw [if_pos hgap] at happend
  refine tokensFrom_congr ?_ ?_
  · rw [happend]
    omega
  · rw [happend, Nat.add_assoc, ← List.drop_drop, List.drop_left, Nat.add_comm]
    rfl

/-- A token before the end of a text is there with a line after it. -/
theorem tokensFrom_append_of_ok
    (hscan : scan source (pos + gapWidth cs) (cs.drop (gapWidth cs)) = .ok token)
    (hkind : token.kind ≠ .eof) (hclosed : ¬ Unclosed (cs.drop (gapWidth cs)))
    (source' : String) (us : List Char) :
    tokensFrom source' pos (cs ++ '\n' :: us) =
      (tokensFrom source' token.stop
        ((cs.drop (gapWidth cs)).drop token.text.length ++ '\n' :: us)).cons token := by
  have hcode := (scan_text_pos hscan hkind).2
  have hgap : gapWidth cs ≠ cs.length := by
    intro heq
    exact hcode (List.drop_eq_nil_iff.2 (by omega))
  have happend := gapWidth_append cs us hclosed
  rw [if_neg hgap] at happend
  have hdrop : (cs ++ '\n' :: us).drop (gapWidth (cs ++ '\n' :: us)) =
      cs.drop (gapWidth cs) ++ '\n' :: us := by
    rw [happend, List.drop_append_of_le_length (gapWidth_le cs)]
  obtain ⟨hscan', hwidth⟩ := scan_append hscan hkind source' us
  rw [tokensFrom_of_ok (by rwa [hdrop, happend]) hkind, hdrop,
    List.drop_append_of_le_length hwidth]

theorem stop_add_length_drop
    (hscan : scan source (pos + gapWidth cs) (cs.drop (gapWidth cs)) = .ok token)
    (hkind : token.kind ≠ .eof) :
    token.stop + ((cs.drop (gapWidth cs)).drop token.text.length).length = pos + cs.length := by
  have hle := gapWidth_le cs
  have hwidth := (scan_append hscan hkind source []).2
  rw [List.length_drop] at hwidth
  rw [Token.stop, scan_pos hscan, List.length_drop, List.length_drop]
  omega

/-- The tokens of a text and of a line after it, if the text leaves no comment open. -/
theorem tokensFrom_append {tokens : List Token} {last : Token} (hlast : last.kind = .eof)
    (h : tokensFrom source pos cs = { tokens := tokens ++ [last], ending := none })
    (hparted : Parted tokens) (source' : String) (us : List Char) :
    tokensFrom source' pos (cs ++ '\n' :: us) =
      { tokens := tokens ++ (tokensFrom source' (pos + cs.length + 1) us).tokens
        ending := (tokensFrom source' (pos + cs.length + 1) us).ending } := by
  fun_induction tokensFrom source pos cs generalizing tokens with
  | case1 cs code fault hscan => simp at h
  | case2 pos cs code token hscan =>
    rename_i hkind
    have htokens : tokens = [] := by
      have hlength := congrArg (List.length ·.tokens) h
      simpa using hlength
    have hgap : gapWidth cs = cs.length := by
      have hle := gapWidth_le cs
      have hnil := List.drop_eq_nil_iff.1 (scan_eof hscan hkind)
      omega
    rw [htokens, tokensFrom_append_of_end hgap]
    rfl
  | case3 pos cs code token hscan hkind =>
    rename_i ih
    obtain ⟨others, rfl, hrest⟩ := Feed.eq_of_cons_eq hlast hkind h
    -- An open comment would have been read as a slash and a star.
    have hclosed : ¬ Unclosed code := by
      intro hclosed
      obtain ⟨slash, star, rest, htokens, hslash, hstar, hpos⟩ :=
        tokensFrom_unclosed source pos hclosed
      rw [tokensFrom_of_ok hscan hkind, h] at htokens
      obtain ⟨rfl, hothers⟩ := List.cons.inj htokens
      exact hparted.pos_ne hlast hslash hstar hothers hpos
    rw [tokensFrom_append_of_ok hscan hkind hclosed, ih hrest hparted.tail,
      stop_add_length_drop hscan hkind]
    rfl

/-! ### Places -/

/-- The tokens and the fault, in another source and `n` characters further on. -/
def Feed.moved (n : Nat) (source : String) (feed : Feed) : Feed :=
  { tokens := feed.tokens.map (Token.moved n), ending := feed.ending.map (Fault.moved n source) }

theorem scan_moved (source source' : String) (pos n : Nat) (code : List Char) :
    scan source' (pos + n) code =
      match scan source pos code with
      | .ok token => .ok (token.moved n)
      | .error fault => .error (fault.moved n source') := by
  cases code with
  | nil => rfl
  | cons c rest =>
    rw [scan, scan]
    rcases longest (c :: rest) with ⟨kind, _ | width⟩
    · rfl
    · dsimp only
      split <;> rfl

/-- Where a text stands makes no difference to its tokens but for their places. -/
theorem tokensFrom_moved (source source' : String) (pos n : Nat) (cs : List Char) :
    tokensFrom source' (pos + n) cs = (tokensFrom source pos cs).moved n source' := by
  fun_induction tokensFrom source pos cs with
  | case1 pos cs code fault h =>
    have hscan := scan_moved source source' (pos + gapWidth cs) n code
    rw [h, Nat.add_right_comm] at hscan
    exact tokensFrom_of_error hscan
  | case2 pos cs code token h hkind =>
    have hscan := scan_moved source source' (pos + gapWidth cs) n code
    rw [h, Nat.add_right_comm] at hscan
    exact tokensFrom_of_eof hscan hkind
  | case3 pos cs code token h hkind ih =>
    have hscan := scan_moved source source' (pos + gapWidth cs) n code
    rw [h, Nat.add_right_comm] at hscan
    have hstop : (token.moved n).stop = token.stop + n := Nat.add_right_comm ..
    rw [tokensFrom_of_ok hscan hkind, hstop]
    exact congrArg (Feed.cons (token.moved n)) ih

theorem tokenize_append {text : String} {tokens : List Token} {last : Token}
    (hlast : last.kind = .eof)
    (h : tokenize text = { tokens := tokens ++ [last], ending := none })
    (hparted : Parted tokens) (line : String) :
    let rest := (tokenize line).moved (text.length + 1) (text ++ "\n" ++ line)
    tokenize (text ++ "\n" ++ line) =
      { tokens := tokens ++ rest.tokens, ending := rest.ending } := by
  have hwhole := tokensFrom_append hlast h hparted (text ++ "\n" ++ line) line.toList
  rw [Nat.zero_add, String.length_toList, ← Nat.zero_add (text.length + 1),
    tokensFrom_moved line] at hwhole
  have hchars : (text ++ "\n" ++ line).toList = text.toList ++ '\n' :: line.toList := by simp
  rw [← hchars] at hwhole
  exact hwhole

/-- The first of the tokens is the next one of the reader. -/
theorem tokenize_of_next {text : String} {token : Token} {lexer : Lexer}
    (h : (ofText text).next = (.ok token, lexer)) :
    ∃ tokens, (tokenize text).tokens = token :: tokens := by
  have hscan : scan text (0 + gapWidth text.toList) (text.toList.drop (gapWidth text.toList)) =
      .ok token := by
    rw [next] at h
    dsimp only [ofText] at h
    rw [List.drop_zero] at h
    split at h
    · cases h
    · next heq =>
      cases h
      exact heq
  by_cases hkind : token.kind = .eof
  · exact ⟨[], congrArg Feed.tokens (tokensFrom_of_eof hscan hkind)⟩
  · exact ⟨_, congrArg Feed.tokens (tokensFrom_of_ok hscan hkind)⟩

end Feeds

/-- Lexing is compositional at line breaks. If a text is read to its end, and no star in it stands
right behind a slash, then the text with a line after it has the tokens of the text, without the
end of the source, and then those of the line, moved behind the line break. What cannot be read of
the line cannot be read there either, at the moved place. -/
theorem tokenize_line_break {text : String} (h : (tokenize text).ending = none)
    (hparted : ∀ slash ∈ (tokenize text).tokens, ∀ star ∈ (tokenize text).tokens,
      slash.kind = .slash → star.kind = .star → star.pos ≠ slash.stop) (line : String) :
    let whole := tokenize (text ++ "\n" ++ line)
    let n := text.length + 1
    whole.tokens = (tokenize text).tokens.filter (·.kind ≠ .eof) ++
        (tokenize line).tokens.map (Token.moved n) ∧
      whole.ending = (tokenize line).ending.map (Fault.moved n (text ++ "\n" ++ line)) ∧
      ∀ pos c, (tokenize line).ending = some (.language (.unexpectedCharacter line pos c)) →
        whole.ending =
          some (.language (.unexpectedCharacter (text ++ "\n" ++ line) (pos + n) c)) := by
  intro whole n
  rcases tokensFrom_shape text 0 text.toList with ⟨tokens, last, htext, hlast, hkinds⟩ | ⟨hne, -⟩
  · have htokenize : tokenize text = { tokens := tokens ++ [last], ending := none } := htext
    rw [htokenize] at hparted ⊢
    have hwhole := tokenize_append hlast htokenize (parted_of_forall fun slash hslash star hstar =>
      hparted slash (List.mem_append_left _ hslash) star (List.mem_append_left _ hstar)) line
    have hfilter : (tokens ++ [last]).filter (·.kind ≠ .eof) = tokens := by
      rw [List.filter_append, List.filter_eq_self.2 (by simpa using hkinds)]
      simp [hlast]
    have hending : whole.ending =
        (tokenize line).ending.map (Fault.moved n (text ++ "\n" ++ line)) :=
      congrArg Feed.ending hwhole
    refine ⟨?_, hending, ?_⟩
    · rw [hfilter]
      exact congrArg Feed.tokens hwhole
    · intro pos c hline
      rw [hending, hline]
      rfl
  · exact absurd h hne

theorem tokenize_line_break_slash :
    (tokenize "a / * b /").ending = none ∧
      (tokenize "* /* c */ #").ending =
        some (.language (.unexpectedCharacter "* /* c */ #" 10 '#')) ∧
      (tokenize "a / * b /\n* /* c */ #").ending =
        some (.language (.unexpectedCharacter "a / * b /\n* /* c */ #" 20 '#')) ∧
      (tokenize "a / * b /\n* /* c */ #").tokens.map (fun token => (token.kind, token.pos)) =
        [(.ident, 0), (.slash, 2), (.star, 4), (.ident, 6), (.slash, 8), (.star, 10)] := by
  have htext : (tokenize "a / * b /").ending = none := by decide +kernel
  have hline : (tokenize "* /* c */ #").ending =
      some (.language (.unexpectedCharacter "* /* c */ #" 10 '#')) := by
    decide +kernel
  obtain ⟨htokens, -, hending⟩ := tokenize_line_break htext (by decide +kernel) "* /* c */ #"
  refine ⟨htext, hline, hending 10 '#' hline, ?_⟩
  have hwhole : "a / * b /\n* /* c */ #" = "a / * b /" ++ "\n" ++ "* /* c */ #" := by decide
  rw [hwhole, htokens]
  decide +kernel

end Lexer
end LetLang
